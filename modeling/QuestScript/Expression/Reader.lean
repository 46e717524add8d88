import QuestScript.Argument.List
import QuestScript.Expression.Number

/-!
# Reading expressions

How an expression takes each kind of token. An object may stand in front of a function, joined by
an arrow, or in front of a member variable, joined by a point. Words that are neither variables
nor objects count as numbers, with a warning.

Functions have arguments that are expressions themselves. `Expression.scan` ties the knot: the
arguments are read from what is left behind the function's keyword.
-/

namespace QuestScript.Expression

variable {n : Nat}

/-- Hands a token back or reports it. -/
def refuse (token : Token) (location : Location) : Reading n Expression Verdict := do
  (← get).progress.refuse token location

/-- Notes that a token has been taken. -/
def start : Reading n Expression Unit :=
  modify fun e => { e with progress := e.progress.start }

/-- Notes the place of a token that contributes. -/
def place (location : Location) : Reading n Expression Unit :=
  modify ({ · with location })

/-- Emits code that needs literals. -/
def emitWith (make : Literals → Code × Literals)
    (within : ∀ pool : Literals, pool.Within (make pool).2 := by simp) :
    Reading n Expression Unit := do
  let code ← Reading.withLiterals make within
  modify (·.emit code)

/-- Takes a number, which is pushed by the given code. -/
def feedNumber (token : Token) (type : ValueType) (push : Literals → Code × Literals)
    (location : Location) (within : ∀ pool : Literals, pool.Within (push pool).2 := by simp) :
    Reading n Expression Verdict := do
  let e ← get
  if !e.object.isEmpty then refuse token location
  else
    set { e with first := false }
    if !e.nextOperand then pure (.handBack token)
    else
      start
      emitWith push within
      modify (·.pushOperand type)
      place location
      pure .more

/-- Takes a name that is an operand: a variable, an object or a word that counts as a number. -/
def feedOperand (env : Environment) (name : String) (location : Location) :
    Reading n Expression Verdict := do
  modify ({ · with first := false })
  if !(← get).nextOperand then pure (.handBack (.name name))
  else
    start
    let lower := Text.toLower name
    let locals ← Reading.look (·.locals)
    match locals.typeOf? lower with
    | some type =>
      modify (·.emit (Assembly.fetchLocal type ((locals.indexOf? lower).getD 0)))
      modify (·.pushOperand type)
    | none =>
      match env.globalType? lower with
      | some type =>
        emitWith (Assembly.fetchGlobal type lower)
        modify (·.pushOperand type)
      | none =>
        if env.isId lower then modify ({ · with object := lower })
        else
          let value := leadingValue lower
          emitWith (Assembly.pushFloat value)
          modify (·.pushOperand .float)
          place location
          Reading.warn (.wordAsNumber value) location
    pure .more

/-- Takes a name behind an object and a point: a member variable of the object. -/
def feedMember (env : Environment) (name : String) (location : Location) :
    Reading n Expression Verdict := do
  modify ({ · with point := false })
  let e ← get
  let lower := Text.toLower name
  match env.memberType? lower e.object with
  | none => refuse (.name name) location
  | some (type, reference) =>
    emitWith (Assembly.fetchMember type lower e.object !reference)
    modify fun e => { e.pushOperand type with object := "" }
    pure .more

/-- Takes a name. An arrow in front of a name has no meaning and is ignored with the object. -/
def feedName (env : Environment) (name : String) (location : Location) :
    Reading n Expression Verdict := do
  let e ← get
  if e.object.isEmpty then feedOperand env name location
  else if e.arrow then
    set { e with object := "" }
    Reading.warn .strayReference location
    feedOperand env name location
  else if e.point then feedMember env name location
  else refuse (.name name) location

/-- Reads the arguments of a function and emits their code. -/
def readArguments (env : Environment) (nested : Reading n Expression Unit) (signature : String) :
    Reading n Expression Nat := do
  let (optionals, code) ← ArgumentList.read env nested signature
  modify (·.emit code)
  pure optionals

/-- Notes that a function has been called. -/
def called (type : ValueType) : Reading n Expression Bool := do
  modify fun e => { e.pushOperand type with arrow := false }
  pure true

/-- Calls a function of the language. The value is whether the word is one. -/
def callBuiltin (env : Environment) (nested : Reading n Expression Unit) (word : Builtin) :
    Reading n Expression Bool := do
  match word with
  | .getSquareRoot =>
    let _ ← readArguments env nested "f"
    modify (·.emit [Assembly.op .squareRoot])
    called .float
  | .menuMode =>
    modify (·.emit [Assembly.op .menuMode])
    called .long
  | .random =>
    let _ ← readArguments env nested "l"
    modify (·.emit [Assembly.op .random])
    called .float
  | .scriptRunning =>
    let _ ← readArguments env nested "c"
    modify (·.emit [Assembly.op .scriptRunning])
    called .long
  | .getDistance =>
    let _ ← readArguments env nested "c"
    emitWith (Assembly.getDistance (← get).object)
    modify ({ · with object := "" })
    called .float
  | .getSecondsPassed =>
    modify (·.emit [Assembly.op .getSecondsPassed])
    called .float
  | .getDisabled =>
    emitWith (Assembly.getDisabled (← get).object)
    modify ({ · with object := "" })
    called .long
  | _ => pure false

/-- Calls a function of the host. The value is whether the number belongs to one. An object in
front of a function that takes none is ignored. -/
def callExtension (env : Environment) (nested : Reading n Expression Unit) (code : Int)
    (location : Location) : Reading n Expression Bool := do
  match env.extensions.function? code with
  | none => pure false
  | some function =>
    if !(← get).object.isEmpty && !function.hasExplicit then
      Reading.warn .strayReference location
      modify ({ · with object := "" })
    start
    place location
    let optionals ← readArguments env nested function.arguments
    let e ← get
    let fragment ← Reading.withLiterals (env.extensions.callFunction code e.object optionals)
    modify (·.emit fragment.code)
    let _ ← Reading.ofDefect fragment.toExcept
    modify ({ · with object := "" })
    called (function.returns.getD .long)

/-- Calls a function. The value is whether the keyword is one. -/
def call (env : Environment) (nested : Reading n Expression Unit) (location : Location) :
    Keyword → Reading n Expression Bool
  | .builtin word => callBuiltin env nested word
  | .extension code => callExtension env nested code location

/-- Takes a keyword behind an object: a function that can be called on it. -/
def feedMethod (env : Environment) (nested : Reading n Expression Unit) (word : Keyword)
    (location : Location) : Reading n Expression Verdict := do
  let e ← get
  if e.arrow && e.nextOperand then
    match word with
    | .builtin .getDisabled | .builtin .getDistance =>
      start
      place location
      let _ ← call env nested location word
      pure .more
    | .builtin _ => refuse (.keyword word) location
    | .extension code =>
      if ← callExtension env nested code location then pure .more
      else refuse (.keyword word) location
  else refuse (.keyword word) location

/-- Takes a keyword that is a function. -/
def feedFunction (env : Environment) (nested : Reading n Expression Unit) (word : Keyword)
    (location : Location) : Reading n Expression Verdict := do
  modify ({ · with first := false })
  let e ← get
  if !e.object.isEmpty then feedMethod env nested word location
  else if !e.nextOperand then pure (.handBack (.keyword word))
  else
    start
    place location
    if ← call env nested location word then pure .more
    else refuse (.keyword word) location

/-- Takes a keyword. Instructions and the words that structure statements count as names. -/
def feedKeyword (env : Environment) (nested : Reading n Expression Unit) (word : Keyword)
    (location : Location) : Reading n Expression Verdict :=
  match word with
  | .extension code =>
    if (env.extensions.instruction? code).isSome then
      feedName env (unquote location.literal) location
    else feedFunction env nested word location
  | .builtin builtin =>
    if builtin.isStatement then feedName env location.literal location
    else feedFunction env nested word location

/-- Takes a special sign behind an object. -/
def feedJoint (sign : Special) (location : Location) : Reading n Expression Verdict := do
  let e ← get
  if e.arrow && sign == .opening then
    set { e.pushOperator .opening with location }
    pure .more
  else if !e.arrow && sign == .reference then
    set { e with arrow := true }
    pure .more
  else if !e.point && sign == .member then
    set { e with point := true }
    pure .more
  else refuse (.special sign) location

/-- Takes a special sign in front of an operand. -/
def feedBeforeOperand (sign : Special) (location : Location) : Reading n Expression Verdict := do
  let e ← get
  match sign with
  | .minus =>
    set { e.pushOperator .negate with location }
    pure .more
  | .plus =>
    set { e with location }
    pure .more
  | .opening =>
    set { e.pushOperator .opening with location }
    pure .more
  | _ => refuse (.special sign) location

/-- Takes a special sign behind an operand. -/
def feedBehindOperand (sign : Special) (location : Location) : Reading n Expression Verdict := do
  let e ← get
  match sign with
  | .opening => pure (.handBack (.special sign))
  | .closing =>
    if e.isOpen then
      set (← Reading.ofDefect e.close)
      pure .more
    else
      set { e with location }
      pure (.handBack (.special sign))
  | _ =>
    let e := { e with location }
    set e
    match Operator.ofSpecial? sign with
    | none => refuse (.special sign) location
    | some operator =>
      if operator ≠ .mul ∧ operator ≠ .div ∧ e.argument ∧ !e.isOpen then
        pure (.handBack (.special sign))
      else
        set (← Reading.ofDefect (e.pushBinary operator))
        pure .more

/-- Takes a special sign. One comma may stand in front of the expression; any other comma and the
end of the line end it. -/
def feedSpecial (sign : Special) (location : Location) : Reading n Expression Verdict := do
  let e ← get
  if !e.object.isEmpty then feedJoint sign location
  else if sign == .comma then
    set { e with location, first := false }
    pure (if e.first then .more else .handBack (.special sign))
  else
    set { e with first := false }
    if sign == .newline then
      place location
      pure (.handBack (.special sign))
    else if e.nextOperand then feedBeforeOperand sign location
    else feedBehindOperand sign location

/-- Takes one token, given a way to read the expressions among the arguments of a function. -/
def feed (env : Environment) (nested : Reading n Expression Unit) (token : Token)
    (location : Location) : Reading n Expression Verdict :=
  match token with
  | .int value => feedNumber token .long (Assembly.pushInt value) location
  | .float value => feedNumber token .float (Assembly.pushFloat value) location
  | .name name => feedName env name location
  | .keyword word => feedKeyword env nested word location
  | .special sign => feedSpecial sign location
  | .comment _ | .endOfText => refuse token location

/-- Reads an expression up to a token that does not belong to it. -/
def scan (env : Environment) (n : Nat) : Reading n Expression Unit :=
  Reading.scan env (fun _ => false) fun m _ => feed env (scan env m)
termination_by n

end QuestScript.Expression
