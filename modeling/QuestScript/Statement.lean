import QuestScript.Declaration
import QuestScript.Expression.Reader
import QuestScript.MessageFormat

/-!
# Statements

A statement is one line: an assignment, a message box, an instruction, possibly on an object, or
a declaration. On the console an expression is a statement as well, and its value is shown.
-/

namespace QuestScript

/-- How far a statement has been read. -/
inductive Statement.Stage where
  /-- Nothing has been read. -/
  | begin
  /-- Behind `set`. -/
  | target
  /-- Behind the name of a local variable to set. -/
  | localTarget (type : ValueType) (index : Nat)
  /-- Behind the name of a global variable to set. -/
  | globalTarget (type : ValueType)
  /-- Behind a name to set that is no variable, but may be followed by a member. -/
  | ownerTarget
  /-- Behind the point in front of a member to set. -/
  | memberTarget
  /-- Behind a member to set; `reference` tells whether it belongs to an object. -/
  | memberValue (type : ValueType) (reference : Bool)
  /-- In front of the text of a message box. -/
  | message
  /-- In front of the text of a message box, behind a comma. -/
  | messageComma
  /-- In front of a button. -/
  | button
  /-- In front of a button, behind a comma. -/
  | buttonComma
  /-- The end of the line has to follow. -/
  | complete
  /-- Behind an object. -/
  | object
  /-- Behind an object and an arrow. -/
  | reference
  /-- Behind an object and a point. -/
  | member
  deriving DecidableEq, Inhabited

/-- A statement, as far as it has been read. -/
structure Statement where
  stage : Statement.Stage := .begin
  /-- Expressions are statements. -/
  allowExpression : Bool := false
  /-- The variable to set, the owner of the member to set, or the text of the message box. -/
  name : String := ""
  /-- The member to set. -/
  memberName : String := ""
  /-- The number of buttons. -/
  buttons : Nat := 0
  /-- The object that an instruction is for; empty if there is none. -/
  object : String := ""
  /-- The code of the statement. -/
  code : Code := []
  deriving DecidableEq, Inhabited

namespace Statement

variable {n : Nat}

/-- The statement as it was before anything had been read. -/
def reset (statement : Statement) : Statement :=
  { allowExpression := statement.allowExpression }

/-- Goes on to a stage. -/
def goto (stage : Stage) : Reading n Statement Verdict := do
  modify ({ · with stage })
  pure .more

/-- Emits code. -/
def emit (code : Code) : Reading n Statement Unit :=
  modify fun statement => { statement with code := statement.code ++ code }

/-- Emits code that needs literals. -/
def emitWith (make : Literals → Code × Literals)
    (within : ∀ pool : Literals, pool.Within (make pool).2 := by simp) :
    Reading n Statement Unit := do
  emit (← Reading.withLiterals make within)

/-- Emits what a fragment has, and stops at its defect. -/
def emitFragment (make : Literals → Fragment × Literals)
    (within : ∀ pool : Literals, pool.Within (make pool).2 := by simp) :
    Reading n Statement Unit := do
  let fragment ← Reading.withLiterals make within
  emit fragment.code
  let _ ← Reading.ofDefect fragment.toExcept

/-- Reads arguments. The value is the number of optional ones and their code. -/
def readArguments (env : Environment) (signature : String)
    (manner : ArgumentList.Manner := {}) : Reading n Statement (Nat × Code) :=
  ArgumentList.read env (Expression.scan env n) signature manner

/-- Offers the object that has been read, and what joins it, to an expression. -/
def offerObject (env : Environment) (statement : Statement) (location : Location) :
    Reading n Expression Unit := do
  unless statement.object.isEmpty do
    let _ ← Expression.feedName env statement.object location
    let joint := if statement.stage = .member then Special.member else Special.reference
    let _ ← Expression.feedSpecial joint location

/-- Reads the expression that is to be shown. It starts with the object that has been read, if
any, and then with the given token, which has been delivered already. That token is left to
whoever reads next if the expression cannot start with the object, because a variable has the
same name. -/
def readShown (env : Environment) (first : Option Token) (location : Location) :
    Reading n Statement Verdict := do
  let statement ← get
  let (offered, expression) ← Reading.within ({} : Expression) (offerObject env statement location)
  if let (.error reason, some token) := (offered, first) then
    return .giveUp token reason
  Reading.ofOutcome offered
  let ((type, code), _) ← Reading.nested expression do
    match first with
    | some token => Reading.redeliver token
    | none => pure ()
    Reading.starting (Expression.feed env (Expression.scan env n)) (Expression.scan env n)
      (first.map (·, location))
    Expression.finish
  emit code
  emitWith (Assembly.report (if type.isFloat then "%f" else "%d"))
  goto .complete

/-- Reads the value of an assignment. -/
def readValue (env : Environment) : Reading n Statement (ValueType × Code) := do
  let (value, _) ← Reading.nested ({} : Expression) do
    Expression.scan env n
    Expression.finish
  pure value

/-- Reports an unknown variable and passes over the line. -/
def passUnknown (env : Environment) (location : Location) : Reading n Statement Verdict := do
  Reading.report .unknownVariable location
  Reading.skipLine env
  pure .done

/-- Takes the name of the variable to set. -/
def feedTarget (env : Environment) (name : String) : Reading n Statement Verdict := do
  let name := Text.toLower name
  let locals ← Reading.look (·.locals)
  modify ({ · with name })
  match locals.typeOf? name with
  | some type => goto (.localTarget type ((locals.indexOf? name).getD 0))
  | none =>
    match env.globalType? name with
    | some type => goto (.globalTarget type)
    | none => goto .ownerTarget

/-- Takes the name of the member to set, if there is such a member. -/
def feedMember? (env : Environment) (name : String) : Reading n Statement (Option Verdict) := do
  let name := Text.toLower name
  match env.memberType? name (← get).name with
  | some (type, reference) =>
    modify ({ · with memberName := name })
    some <$> goto (.memberValue type reference)
  | none => pure none

/-- Takes the text of a message box and the values for its placeholders. -/
def feedMessage (env : Environment) (text : String) : Reading n Statement Verdict := do
  let signature := MessageFormat.signature text
  unless signature.isEmpty do
    let (_, code) ← readArguments env signature { expectNames := true }
    emit code
  modify ({ · with name := text, buttons := 0 })
  goto .button

/-- Takes the text of a button. -/
def feedButton (text : String) : Reading n Statement Verdict := do
  emitWith (Assembly.pushString text)
  modify fun statement => { statement with buttons := statement.buttons + 1 }
  goto .button

/-- Takes a name at the start of the line: an object or, where expressions are allowed, a
variable. -/
def feedFirstName (env : Environment) (name : String) (location : Location) :
    Reading n Statement Verdict := do
  let lower := Text.toLower name
  let isVariable :=
    ((← Reading.look (·.locals)).typeOf? lower).isSome || (env.globalType? lower).isSome
  if env.isId lower then
    modify ({ · with object := lower })
    goto .object
  else if (← get).allowExpression && isVariable then
    readShown env (some (.name name)) location
  else Reading.refuse (.name name) location

/-- Takes a name. -/
def feedName (env : Environment) (name : String) (location : Location) :
    Reading n Statement Verdict := do
  match (← get).stage with
  | .target => feedTarget env name
  | .memberTarget =>
    match ← feedMember? env name with
    | some verdict => pure verdict
    | none => passUnknown env location
  | .message | .messageComma => feedMessage env name
  | .button | .buttonComma => feedButton name
  | .begin => feedFirstName env name location
  | _ => Reading.refuse (.name name) location

/-- Takes an instruction of the language. The value is whether the word is one here: scripts
cannot be stopped on an object. -/
def feedInstruction (env : Environment) (word : Builtin) : Reading n Statement Bool := do
  let statement ← get
  match word with
  | .enable => emitWith (Assembly.enable statement.object)
  | .disable => emitWith (Assembly.disable statement.object)
  | .startScript =>
    let (_, code) ← readArguments env "c"
    emit code
    emitWith (Assembly.startScript statement.object)
  | .stopScript =>
    if statement.stage ≠ .begin then
      return false
    let (_, code) ← readArguments env "c"
    emit code
    emit [Assembly.op .stopScript]
  | _ => return false
  let _ ← goto .complete
  pure true

/-- Ignores an object in front of a call that takes none. -/
def dropReference (extension : Extension) (location : Location) : Reading n Statement Unit := do
  if (← get).stage = .reference && !extension.hasExplicit then
    Reading.warn .strayReference location
    modify ({ · with object := "" })

/-- The instruction is spelled `PositionCell`, in whatever case. -/
def isPositionCell (location : Location) : Bool :=
  (unquote location.literal).map Char.toLower == "positioncell"

/-- Reads the arguments of an instruction of the host. Scripts are known to give wrong arguments
to `PositionCell`: its errors count as warnings, and then the line is dropped. -/
def readCallArguments (env : Environment) (code : Int) (instruction : Extension)
    (location : Location) : Reading n Statement (Option (Nat × Code)) := do
  let arguments := readArguments env instruction.arguments
    { ignored := some (.extension code) }
  if isPositionCell location then
    match ← Reading.attempt (Reading.downgraded arguments) with
    | .ok found => pure (some found)
    | .error .source =>
      Reading.skipLine env
      pure none
    | .error reason => Reading.abort reason
  else some <$> arguments

/-- Takes an instruction of the host. -/
def feedCall (env : Environment) (code : Int) (instruction : Extension) (location : Location) :
    Reading n Statement Verdict := do
  dropReference instruction location
  match ← readCallArguments env code instruction location with
  | none => pure .done
  | some (optionals, arguments) =>
    emit arguments
    emitFragment (env.extensions.callInstruction code (← get).object optionals)
    goto .complete

/-- Takes an instruction or a function of the host, if the keyword is one. -/
def feedExtension? (env : Environment) (word : Keyword) (location : Location) :
    Reading n Statement (Option Verdict) := do
  match word with
  | .builtin _ => pure none
  | .extension code =>
    match env.extensions.instruction? code, env.extensions.function? code with
    | some instruction, _ => some <$> feedCall env code instruction location
    | none, some function =>
      dropReference function location
      some <$> readShown env (some (.keyword word)) location
    | none, none => pure none

/-- Takes a declaration. -/
def feedDeclaration (env : Environment) (word : Keyword) (location : Location) :
    Reading n Statement Verdict := do
  if !env.canDeclareLocals then
    Reading.report .localsForbidden location
    Reading.skipLine env
  else
    let _ ← Reading.nested Declaration.begin (Declaration.readFrom env word location)
  pure .done

/-- Ignores a word that belongs to a block. -/
def passStray (problem : Problem) (location : Location) : Reading n Statement Verdict := do
  Reading.warn problem location
  goto .complete

/-- Takes a word at the start of a statement that is no instruction, if it may stand there. -/
def feedFirstWord? (env : Environment) (word : Builtin) (location : Location) :
    Reading n Statement (Option Verdict) :=
  match word with
  | .short | .long | .float => some <$> feedDeclaration env (.builtin word) location
  | .setVariable => some <$> goto .target
  | .messageBox => do
    Reading.modifyModes fun modes => { modes with strictKeywords := true }
    some <$> goto .message
  | .leave => do
    emit [Assembly.op .exit]
    some <$> goto .complete
  | .elseBlock => some <$> passStray .strayElse location
  | .endIf => some <$> passStray .strayEndif location
  | .beginScript => some <$> passStray .strayBegin location
  | _ => pure none

/-- The word is a function of the language. -/
def isFunction : Keyword → Bool
  | .builtin word =>
    [.getSquareRoot, .menuMode, .random, .scriptRunning, .getSecondsPassed, .getDistance,
      .getDisabled].contains word
  | .extension _ => false

/-- Takes a keyword that takes no object. -/
def feedPlainKeyword (env : Environment) (word : Keyword) (location : Location) :
    Reading n Statement Verdict := do
  if let .builtin builtin := word then
    if let some verdict ← feedFirstWord? env builtin location then
      return verdict
  Reading.refuse (.keyword word) location

/-- Takes a keyword that is no instruction of the language. An object in front of something that
takes none is ignored. -/
def feedOtherKeyword (env : Environment) (word : Keyword) (location : Location) :
    Reading n Statement Verdict := do
  if let some verdict ← feedExtension? env word location then
    return verdict
  let statement ← get
  if statement.allowExpression && isFunction word then
    return ← readShown env (some (.keyword word)) location
  if statement.stage = .reference then
    Reading.warn .strayReference location
    set { statement with stage := .begin, object := "" }
  feedPlainKeyword env word location

/-- Takes a keyword at the start of a line or behind an object and an arrow. -/
def feedFirstKeyword (env : Environment) (word : Keyword) (location : Location) :
    Reading n Statement Verdict := do
  if let .builtin builtin := word then
    if ← feedInstruction env builtin then
      return .more
  feedOtherKeyword env word location

/-- Takes `to` behind a variable, and then the value. -/
def feedAssignment (env : Environment) (word : Keyword) (location : Location) :
    Reading n Statement Verdict := do
  let statement ← get
  match statement.stage with
  | .localTarget type index =>
    let (valueType, value) ← readValue env
    emit (Assembly.assignToLocal type index value valueType)
    goto .complete
  | .globalTarget type =>
    let (valueType, value) ← readValue env
    emitWith (Assembly.assignToGlobal type statement.name value valueType)
    goto .complete
  | .memberValue type reference =>
    let (valueType, value) ← readValue env
    emitWith (Assembly.assignToMember type statement.memberName statement.name value valueType
      !reference)
    goto .complete
  | .ownerTarget => passUnknown env location
  | _ => Reading.refuse (.keyword word) location

/-- The keyword is an instruction of the host. -/
def isInstruction (env : Environment) : Keyword → Bool
  | .builtin _ => false
  | .extension code => (env.extensions.instruction? code).isSome

/-- Takes a keyword. In message boxes instructions count as texts, and a variable to set may have
the name of any keyword. -/
def feedKeyword (env : Environment) (word : Keyword) (location : Location) :
    Reading n Statement Verdict := do
  match (← get).stage with
  | .message | .messageComma | .button | .buttonComma =>
    if isInstruction env word then feedName env (unquote location.literal) location
    else Reading.refuse (.keyword word) location
  | .target => feedTarget env location.literal
  | .memberTarget =>
    match ← feedMember? env location.literal with
    | some verdict => pure verdict
    | none => Reading.refuse (.keyword word) location
  | .begin | .reference => feedFirstKeyword env word location
  | _ =>
    if word = .builtin .toValue then feedAssignment env word location
    else Reading.refuse (.keyword word) location

/-- Takes a special sign. -/
def feedSpecial (env : Environment) (sign : Special) (location : Location) :
    Reading n Statement Verdict := do
  let statement ← get
  match statement.stage, sign with
  | .complete, .opening =>
    Reading.warn .strayOpening location
    pure .more
  | .complete, .newline | .begin, .newline => pure .done
  | .message, .comma => goto .messageComma
  | .ownerTarget, .reference =>
    Reading.warn .strayReference location
    goto .target
  | .object, .reference => goto .reference
  | .button, .newline | .buttonComma, .newline =>
    emitFragment (Assembly.message statement.name statement.buttons)
    pure .done
  | .button, .comma => goto .buttonComma
  | .ownerTarget, .member => goto .memberTarget
  | .object, .member =>
    if statement.allowExpression then
      let _ ← goto .member
      readShown env none location
    else Reading.refuse (.special sign) location
  | .begin, .opening | .begin, .minus | .begin, .plus =>
    if statement.allowExpression then readShown env (some (.special sign)) location
    else Reading.refuse (.special sign) location
  | _, _ => Reading.refuse (.special sign) location

/-- Takes a number. An integer may be the name of a variable to set. -/
def feedNumber (env : Environment) (token : Token) (location : Location) :
    Reading n Statement Verdict := do
  let statement ← get
  match statement.stage, token with
  | .begin, _ =>
    if statement.allowExpression then readShown env (some token) location
    else Reading.refuse token location
  | .target, .int _ => feedTarget env location.literal
  | _, _ => Reading.refuse token location

/-- Takes one token. -/
def feed (env : Environment) (token : Token) (location : Location) :
    Reading n Statement Verdict :=
  match token with
  | .int _ | .float _ => feedNumber env token location
  | .name name => feedName env name location
  | .keyword word => feedKeyword env word location
  | .special sign => feedSpecial env sign location
  | .comment _ | .endOfText => Reading.refuse token location

/-- Reads a statement up to the end of its line. -/
def scan (env : Environment) : Reading n Statement Unit :=
  Reading.scan env (fun _ => false) fun _ _ => feed env

/-- Reads a line, which may start with a token that has been delivered already. A line with a
reported error is passed over. The value is whether the line was read, and its code, which is
empty otherwise. -/
def compile (env : Environment) (first : Option (Token × Location)) :
    Reading n Statement (Bool × Code) := do
  modify reset
  let compiled ← Reading.recoverLine env (Reading.starting (feed env) (scan env) first)
  let statement ← get
  if compiled then
    set { statement with code := [] }
    pure (true, statement.code)
  else
    set statement.reset
    pure (false, [])

end Statement

end QuestScript
