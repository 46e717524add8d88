import QuestScript.Argument.List
import QuestScript.Compile
import QuestScript.Proofs.Arguments.Tokens
import QuestScript.Proofs.Expression

/-!
# Argument lists are read as they are written

An argument is a text in quotes, or a product of units whose tokens have blanks between them
(`ArgumentList.Argument.Written`). Arguments stand on a line with commas between them
(`ArgumentList.Listed`). The main statement is `ArgumentList.read_listed`: if they match the letters
of a signature, and at most optional ones are missing, then they are read without a report, in the
order of their literals and with their code in reverse.

The invariant of the run over the letters is what the scanner faces. An expression ends in front of
a comma, which it puts back, and the comma is then taken at the start of the next argument. A text
leaves the comma unread. Both are the same to what follows (`Scanner.Faces`). Where a name is
expected, the comma does matter (`five_behind_message`).
-/

namespace QuestScript

open Lexeme (Gap)
open Reading (Scans runOn)

/-! ### Scans of tokens that come next -/

namespace Reading

variable {σ : Type} {env : Environment} {mayEnd : σ → Bool}
  {feed : (m : Nat) → Token → Location → Reading m σ Verdict} {p q : σ} {s t : Session}
  {scanner : Scanner} {token : Token} {place : Location} {r : Result σ Unit}

/-- The reader takes the token that comes next and wants more. -/
theorem Scans.of_yields (h : s.scanner.Yields env.extensions token place scanner)
    (hoffered : token.IsOffered)
    (hfeed : runOn (fun m => feed m token place) p { s with scanner } = ⟨.ok .more, q, t⟩)
    (hrest : Scans env mayEnd feed q t r) : Scans env mayEnd feed p s r := by
  generalize hs : s.scanner = before at h
  induction h generalizing s with
  | token hpull =>
      rw [← hs] at hpull
      exact .more (Session.pull_of_quiet hpull) hoffered.1 hoffered.2 hfeed hrest
  | blank hpull _ ih =>
      rw [← hs] at hpull
      exact .pass (Session.pull_of_quiet hpull) trivial (ih hoffered hfeed rfl)

/-- The token that comes next is the last one that the reader is offered. -/
theorem Scans.of_yields_last (h : s.scanner.Yields env.extensions token place scanner)
    (hoffered : token.IsOffered)
    (hanswer : Turn.ofAnswer place none (runOn (fun m => feed m token place) p { s with scanner }) =
      .last r) : Scans env mayEnd feed p s r := by
  generalize hs : s.scanner = before at h
  induction h generalizing s with
  | token hpull =>
      rw [← hs] at hpull
      exact .last (Session.pull_of_quiet hpull) hoffered.1 hoffered.2 hanswer
  | blank hpull _ ih =>
      rw [← hs] at hpull
      exact .pass (Session.pull_of_quiet hpull) trivial (ih hoffered hanswer rfl)

end Reading

/-! ### What stands in front of an argument -/

/-- Blanks, and behind another argument a comma among them. -/
inductive ArgumentList.Lead : Bool → List Char → Prop where
  | first {gap : List Char} (hgap : Gap gap) : Lead false gap
  | behind {gap gap' : List Char} (hgap : Gap gap) (hgap' : Gap gap') :
      Lead true (gap ++ ',' :: gap')

theorem Scanner.Faces.expect_name {s : Scanner} {expect : Bool} {text : List Char}
    (hs : s.Faces expect text) :
    (s.mapModes fun modes => { modes with expectName := true }).Faces true text := by
  cases hs with
  | unread read hpending htext hread hmodes =>
      exact .unread read hpending htext hread ⟨hmodes.ignoreSpecial, hmodes.tolerantNames, rfl⟩
  | comma front back place hpending htext hfront hback hmodes =>
      exact .comma front back place hpending htext hfront hback
        ⟨hmodes.ignoreSpecial, hmodes.tolerantNames, rfl⟩
  | newline front place hpending htext hfront => exact .newline front place hpending htext hfront

/-! ### Text arguments -/

namespace TextArgument

variable {n : Nat} {env : Environment} {argument : TextArgument} {s : Session}
  {h : s.unread ≤ n}

theorem run_scan {r : Result TextArgument Unit}
    (hscans : Scans env (fun _ => false) (fun _ => feed env) argument s r) :
    (scan env).run argument s h = r :=
  Scans.unique (Reading.scans_scan_from h) hscans

/-- A name is taken, perhaps in lower case. -/
theorem scans_name {name : String} {place : Location} {scanner : Scanner}
    (hkept : argument.dropped = false)
    (hyields : s.scanner.Yields env.extensions (.name name) place scanner) :
    Scans env (fun _ => false) (fun _ => feed env) argument s
      ⟨.ok (), { argument with
          progress := argument.progress.start
          location := place
          code := argument.code ++ [Assembly.push s.literals.strings.length] },
        { s with
          scanner
          literals := s.literals.append
            { strings := [if argument.lowerCase then Text.toLower name else name] } }⟩ := by
  refine .of_yields_last hyields (Token.is_offered_name name) ?_
  simp [runOn, feed, accept, hkept, Assembly.pushString, Literals.addString, Literals.append]
  rfl

/-- One comma is passed over in front of the text. -/
theorem scans_comma {place : Location} {scanner : Scanner} {r : Result TextArgument Unit}
    (hcomma : argument.comma = false) (hempty : argument.progress.empty = true)
    (hyields : s.scanner.Yields env.extensions (.special .comma) place scanner)
    (hrest : Scans env (fun _ => false) (fun _ => feed env) { argument with comma := true }
      { s with scanner } r) :
    Scans env (fun _ => false) (fun _ => feed env) argument s r := by
  refine .of_yields hyields (Token.is_offered_special .comma) ?_ hrest
  simp [runOn, feed, hcomma, hempty]

/-- In front of the end of the line an optional text is missing. -/
theorem scans_newline {place : Location} {scanner : Scanner}
    (hoptional : argument.progress.optional = true) (hempty : argument.progress.empty = true)
    (hyields : s.scanner.Yields env.extensions (.special .newline) place scanner) :
    Scans env (fun _ => false) (fun _ => feed env) argument s
      ⟨.ok (), argument, { s with scanner := scanner.putBack (.special .newline) place }⟩ := by
  refine .of_yields_last hyields (Token.is_offered_special .newline) ?_
  simp [runOn, feed, Progress.refuse, hoptional, hempty]
  rfl

end TextArgument

/-! ### Arguments -/

namespace ArgumentList

/-- An argument: a text, or the value of a formula that is converted to a type. -/
inductive Argument where
  | text (text : String)
  | number (formula : Formula) (type : ValueType)

namespace Argument

/-- The literals of an argument. -/
def literals : Argument → Literals
  | .text value => { strings := [value] }
  | .number formula _ => formula.literals

/-- Converts a value that is a float or is none to the type that is asked for. -/
def conversion (isFloat : Bool) : ValueType → Code
  | .float => if isFloat then [] else [Assembly.op .intToFloat]
  | .short | .long => if isFloat then [Assembly.op .floatToInt] else []

theorem convert_type (formula : Formula) (type : ValueType) :
    Assembly.convert formula.type type = conversion formula.isFloat type := by
  unfold Formula.type
  cases formula.isFloat <;> cases type <;> rfl

/-- The code of an argument whose literals come behind those of the pool. -/
def code (pool : Literals) : Argument → Code
  | .text _ => [Assembly.push pool.strings.length]
  | .number formula type => formula.code pool ++ conversion formula.isFloat type

/-- The characters are a way to write the argument where a signature has the letter. Of the
operations between two values only those of a product stand outside of parentheses. -/
inductive Written (env : Environment) (locals : Locals) : Char → List Char → Argument → Prop where
  | text {body : List Char} (hquote : '"' ∉ body) (hline : '\n' ∉ body)
      (hkeyword : env.extensions.keyword? (Text.toLower (String.ofList body)) = none) :
      Written env locals 'S' ('"' :: (body ++ ['"'])) (.text (String.ofList body))
  | lowerText {body : List Char} (hquote : '"' ∉ body) (hline : '\n' ∉ body)
      (hkeyword : env.extensions.keyword? (Text.toLower (String.ofList body)) = none) :
      Written env locals 'c' ('"' :: (body ++ ['"'])) (.text (Text.toLower (String.ofList body)))
  | number {letter : Char} {type : ValueType} {tokens : List Token} {chars : List Char}
      {formula : Formula} (htype : ValueType.ofLetter? letter = some type)
      (hspaced : Token.Spaced env.extensions tokens chars)
      (hderives : Formula.Derives env locals .product tokens formula) :
      Written env locals letter chars (.number formula type)

/-- The literals of arguments, in the order of the arguments. -/
def allLiterals : List Argument → Literals
  | [] => {}
  | argument :: arguments => argument.literals.append (allLiterals arguments)

/-- The codes of arguments whose literals come behind those of the pool. -/
def codes (pool : Literals) : List Argument → List Code
  | [] => []
  | argument :: arguments =>
    argument.code pool :: codes (pool.append argument.literals) arguments

end Argument

/-- The text of a line with arguments for the letters, which begins behind another argument or does
not, up to the end of the line. Behind it is the rest of the text. -/
inductive Listed (env : Environment) (locals : Locals) (rest : List Char) :
    Bool → List Char → List Char → List Argument → Prop where
  | close {behind : Bool} {gap : List Char} (hgap : Gap gap) :
      Listed env locals rest behind (gap ++ '\n' :: rest) [] []
  | more {behind : Bool} {lead chars text letters : List Char} {letter : Char}
      {argument : Argument} {arguments : List Argument} (hlead : Lead behind lead)
      (h : argument.Written env locals letter chars)
      (hrest : Listed env locals rest true text letters arguments) :
      Listed env locals rest behind (lead ++ (chars ++ text)) (letter :: letters)
        (argument :: arguments)

variable {n : Nat} {σ : Type} {env : Environment} {p : σ} {s : Session} {h : s.unread ≤ n}
  {expect optional : Bool}

/-- An argument ends in front of a comma or at the end of the line. -/
theorem Listed.exists_closing {rest text letters : List Char} {arguments : List Argument}
    {locals : Locals} (hlisted : Listed env locals rest true text letters arguments) :
    ∃ gap c more sign, text = gap ++ c :: more ∧ Gap gap ∧ Scanner.Closes sign c := by
  cases hlisted with
  | @close _ gap hgap => exact ⟨gap, '\n', rest, .newline, rfl, hgap, .newline⟩
  | @more _ _ chars text _ _ _ _ hlead _ _ =>
      cases hlead with
      | @behind gap gap' hgap _ =>
          refine ⟨gap, ',', gap' ++ (chars ++ text), .comma, ?_, hgap, .comma⟩
          rw [List.append_assoc, List.cons_append]

theorem Listed.length_eq {rest text letters : List Char} {behind : Bool} {arguments : List Argument}
    {locals : Locals} (hlisted : Listed env locals rest behind text letters arguments) :
    arguments.length = letters.length := by
  induction hlisted with
  | close => rfl
  | more _ _ _ ih => rw [List.length_cons, List.length_cons, ih]

/-! ### One letter -/

theorem run_read_text {front body tail : List Char} {behind lowerCase : Bool}
    (hs : s.scanner.Faces expect (front ++ (('"' :: (body ++ ['"'])) ++ tail)))
    (hlead : Lead behind front) (hquote : '"' ∉ body) (hline : '\n' ∉ body)
    (hkeyword : env.extensions.keyword? (Text.toLower (String.ofList body)) = none) :
    ∃ scanner, (readText env optional lowerCase : Reading n σ Found).run p s h =
        ⟨.ok (.value [Assembly.push s.literals.strings.length]), p,
          { s with
            scanner
            literals := s.literals.append { strings :=
              [if lowerCase then Text.toLower (String.ofList body) else String.ofList body] } }⟩ ∧
      scanner.Faces false tail := by
  let expecting : Session :=
    { s with scanner := s.scanner.mapModes fun modes => { modes with expectName := true } }
  have hexpecting : expecting.scanner.Faces true _ := hs.expect_name
  -- Whether a comma has been read makes no difference.
  obtain ⟨scanner, comma, place, hscans, htail⟩ : ∃ scanner comma place,
      Scans env (fun _ => false) (fun _ => TextArgument.feed env)
        { progress := { optional }, lowerCase } expecting
        ⟨.ok (), { progress := { optional, empty := false }, lowerCase, comma, location := place
                   code := [Assembly.push s.literals.strings.length] },
          { s with
            scanner
            literals := s.literals.append { strings :=
              [if lowerCase then Text.toLower (String.ofList body) else String.ofList body] } }⟩ ∧
      scanner.Faces false tail := by
    cases hlead with
    | first hgap =>
        obtain ⟨place, scanner, hyields, htail⟩ :=
          hexpecting.yields_quoted hgap hquote hline hkeyword
        exact ⟨scanner, false, place, TextArgument.scans_name rfl hyields, htail⟩
    | behind hgap hgap' =>
        rw [List.append_assoc, List.cons_append] at hexpecting
        obtain ⟨place, between, hcomma, -, expect', hbetween, -⟩ := hexpecting.yields_comma hgap
        obtain ⟨place', scanner, hyields, htail⟩ :=
          hbetween.yields_quoted hgap' hquote hline hkeyword
        exact ⟨scanner, true, place', TextArgument.scans_comma rfl rfl hcomma
          (TextArgument.scans_name rfl hyields), htail⟩
  have hrun : (TextArgument.scan env : Reading n TextArgument Unit).run
      { progress := { optional }, lowerCase } expecting h = _ := TextArgument.run_scan hscans
  obtain ⟨_, hnested⟩ := Reading.run_nested_bind_of_ok hrun
  refine ⟨scanner, ?_, htail⟩
  rw [readText, expectName, Reading.run_modify_modes_bind, hnested]
  simp

theorem run_read_text_absent {gap rest : List Char} (lowerCase : Bool)
    (hs : s.scanner.Faces expect (gap ++ '\n' :: rest)) (hgap : Gap gap) :
    ∃ scanner, (readText env true lowerCase : Reading n σ Found).run p s h =
        ⟨.ok .absent, p, { s with scanner }⟩ ∧ scanner.Faces false (gap ++ '\n' :: rest) := by
  obtain ⟨place, between, hyields, hrest⟩ := hs.expect_name.yields_newline hgap
  refine ⟨between.putBack (.special .newline) place, ?_, .put_back_newline hrest hgap place⟩
  let expecting : Session :=
    { s with scanner := s.scanner.mapModes fun modes => { modes with expectName := true } }
  have hrun : (TextArgument.scan env : Reading n TextArgument Unit).run
      { progress := { optional := true }, lowerCase } expecting h = _ :=
    TextArgument.run_scan (TextArgument.scans_newline rfl rfl hyields)
  obtain ⟨_, hnested⟩ := Reading.run_nested_bind_of_ok hrun
  rw [readText, expectName, Reading.run_modify_modes_bind, hnested]
  rfl

/-- An expression begins with its first token. A comma may stand in front. -/
theorem delivers_lead {front chars back rest : List Char} {behind : Bool} {c : Char}
    {sign : Special} {tokens : List Token} {locals : Locals} {formula : Formula}
    (hs : s.scanner.Faces false (front ++ (chars ++ (back ++ c :: rest))))
    (hlead : Lead behind front) (hspaced : Token.Spaced env.extensions tokens chars)
    (hderives : Formula.Derives env locals .product tokens formula) (hback : Gap back)
    (hc : Scanner.Closes sign c) :
    ∃ commas delivered place final e,
      s.scanner.Delivers env.extensions ((commas ++ delivered) ++ [(.special sign, place)]) []
        final ∧
      Expression.TakesAll env s.locals commas { argument := true, progress := { optional } }
        s.literals e s.literals ∧
      e.Holds ⟨true, optional⟩ {} [] true ∧ delivered.map Prod.fst = tokens ∧
      (final.putBack (.special sign) place).Faces false (back ++ c :: rest) := by
  have hstart : Expression.Holds { argument := true, progress := { optional } } ⟨true, optional⟩ {}
      [] true := ⟨rfl, rfl, rfl, rfl, by rintro ⟨⟩, rfl⟩
  cases hlead with
  | first hgap =>
      obtain ⟨delivered, place, final, hdelivers, htokens, hfinal⟩ :=
        Scanner.Faces.delivers_spaced hspaced hderives.compares_apart.chain hs hgap hback hc
      exact ⟨[], delivered, place, final, _, hdelivers, .nil _ _, hstart, htokens, hfinal⟩
  | behind hgap hgap' =>
      rw [List.append_assoc, List.cons_append] at hs
      obtain ⟨comma, between, hcomma, -, expect, hbetween, hexpect⟩ := hs.yields_comma hgap
      rw [hexpect rfl] at hbetween
      obtain ⟨delivered, place, final, hdelivers, htokens, hfinal⟩ :=
        Scanner.Faces.delivers_spaced hspaced hderives.compares_apart.chain hbetween hgap' hback hc
      obtain ⟨e, htakes, he⟩ := Expression.takes_comma hstart rfl
      exact ⟨[(.special .comma, comma)], delivered, place, final, e,
        hcomma.delivers (Token.is_offered_special .comma) hdelivers, .cons htakes (.nil _ _), he,
        htokens, hfinal⟩

theorem run_read_value {front chars back rest : List Char} {behind : Bool} {c : Char}
    {sign : Special} {tokens : List Token} {formula : Formula}
    (hs : s.scanner.Faces false (front ++ (chars ++ (back ++ c :: rest))))
    (hlead : Lead behind front) (hspaced : Token.Spaced env.extensions tokens chars)
    (hderives : Formula.Derives env s.locals .product tokens formula) (hback : Gap back)
    (hc : Scanner.Closes sign c) (type : ValueType) :
    ∃ scanner, (readValue (Expression.scan env n) optional type : Reading n σ Found).run p s h =
        ⟨.ok (.value (formula.code s.literals ++ Assembly.convert formula.type type)), p,
          { s with scanner, literals := s.literals.append formula.literals }⟩ ∧
      scanner.Faces false (back ++ c :: rest) := by
  obtain ⟨commas, delivered, place, final, e, hdelivers, hcommas, he, htokens, hfinal⟩ :=
    delivers_lead hs hlead hspaced hderives hback hc
  obtain ⟨e', values, waiting, htakes, he', hwaiting, hemit⟩ :=
    Expression.Reads.of_derives hderives delivered htokens e s.literals {} [] he
      fun _ => ⟨by rintro _ ⟨⟩, fun _ => Or.inl (Nat.le_refl _)⟩
  rw [List.append_nil] at he'
  have hends :
      Expression.EndsBefore env sign e' (·.Holds ⟨true, optional⟩ values waiting false) := by
    cases hc with
    | comma => exact Expression.ends_before_comma he' he'.ended
    | newline => exact Expression.ends_before_newline he'.object he'.ended
  obtain ⟨q, hrun, hq⟩ :=
    Expression.run_scan_of_ends_before hdelivers rfl hends s h rfl (hcommas.append htakes)
  refine ⟨final.putBack (.special sign) place, ?_, hfinal⟩
  have hpositive : ∀ operator ∈ waiting, 1 ≤ operator.priority := fun operator hmem =>
    Nat.le_trans (by decide) (hwaiting operator hmem)
  obtain ⟨ht, hnested⟩ := Reading.run_nested_bind_of_ok hrun
  obtain ⟨q', hfinish⟩ := Expression.run_finish hq hpositive hemit _ ht
  obtain ⟨_, hnested'⟩ := Reading.run_nested_bind_of_ok hfinish
  rw [readValue, hnested]
  dsimp only
  rw [(hq.started rfl).1, Bool.and_false, if_neg Bool.false_ne_true, hnested']
  rfl

theorem run_read_value_absent {gap rest : List Char}
    (hs : s.scanner.Faces expect (gap ++ '\n' :: rest)) (hgap : Gap gap) (type : ValueType) :
    ∃ scanner, (readValue (Expression.scan env n) true type : Reading n σ Found).run p s h =
        ⟨.ok .absent, p, { s with scanner }⟩ ∧ scanner.Faces false (gap ++ '\n' :: rest) := by
  obtain ⟨place, between, hyields, hrest⟩ := hs.yields_newline hgap
  refine ⟨between.putBack (.special .newline) place, ?_, .put_back_newline hrest hgap place⟩
  have hends : Expression.EndsBefore env .newline
      { argument := true, progress := { optional := true } } (·.progress.empty = true) :=
    Expression.ends_before_newline rfl fun _ => rfl
  obtain ⟨q, hrun, hempty⟩ := Expression.run_scan_of_ends_before
    (hyields.delivers (Token.is_offered_special .newline) (.nil between)) rfl hends s h rfl
    (.nil _ _)
  obtain ⟨_, hnested⟩ := Reading.run_nested_bind_of_ok hrun
  rw [readValue, hnested]
  dsimp only
  rw [hempty, Bool.true_and, if_pos rfl]
  rfl

theorem read_letter_of_type {manner : Manner} (hmanner : manner.expectNames = false)
    {expression : Reading n Expression Unit} {letter : Char} {type : ValueType}
    (htype : ValueType.ofLetter? letter = some type) :
    (readLetter env expression manner optional letter : Reading n σ Found) =
      readValue expression optional type := by
  have hexpression : readExpression expression manner optional type =
      (readValue expression optional type : Reading n σ Found) := by
    rw [readExpression, hmanner]
    rfl
  rw [← hexpression]
  unfold ValueType.ofLetter? at htype
  split_ifs at htype with hshort hlong hfloat
  · subst hshort
    cases htype
    rfl
  · subst hlong
    cases htype
    rfl
  · subst hfloat
    cases htype
    rfl

/-- The argument that a letter describes is read, and converted if need be. -/
theorem run_read_letter {manner : Manner} (hmanner : manner.expectNames = false)
    {front chars back rest : List Char} {behind : Bool} {c letter : Char} {sign : Special}
    {argument : Argument} (hs : s.scanner.Faces false (front ++ (chars ++ (back ++ c :: rest))))
    (hlead : Lead behind front) (hwritten : argument.Written env s.locals letter chars)
    (hback : Gap back) (hc : Scanner.Closes sign c) :
    ∃ scanner, (readLetter env (Expression.scan env n) manner optional letter :
        Reading n σ Found).run p s h =
        ⟨.ok (.value (argument.code s.literals)), p,
          { s with scanner, literals := s.literals.append argument.literals }⟩ ∧
      scanner.Faces false (back ++ c :: rest) := by
  cases hwritten with
  | text hquote hline hkeyword => exact run_read_text hs hlead hquote hline hkeyword
  | lowerText hquote hline hkeyword => exact run_read_text hs hlead hquote hline hkeyword
  | @number _ type tokens _ formula htype hspaced hderives =>
      obtain ⟨scanner, hrun, hscanner⟩ := run_read_value hs hlead hspaced hderives hback hc type
      refine ⟨scanner, ?_, hscanner⟩
      rw [read_letter_of_type hmanner htype, hrun, Argument.convert_type]
      rfl

/-- Where an optional argument is missing, the line ends. -/
theorem run_read_letter_absent {manner : Manner} (hmanner : manner.expectNames = false)
    {gap rest : List Char} {letter : Char} (hletter : letter ∈ ['S', 'c', 's', 'l', 'f'])
    (hs : s.scanner.Faces false (gap ++ '\n' :: rest)) (hgap : Gap gap) :
    ∃ scanner, (readLetter env (Expression.scan env n) manner true letter :
        Reading n σ Found).run p s h = ⟨.ok .absent, p, { s with scanner }⟩ ∧
      scanner.Faces false (gap ++ '\n' :: rest) := by
  simp only [List.mem_cons, List.not_mem_nil, or_false] at hletter
  obtain rfl | rfl | rfl | rfl | rfl := hletter
  · exact run_read_text_absent false hs hgap
  · exact run_read_text_absent true hs hgap
  · rw [read_letter_of_type hmanner rfl]
    exact run_read_value_absent hs hgap .short
  · rw [read_letter_of_type hmanner rfl]
    exact run_read_value_absent hs hgap .long
  · rw [read_letter_of_type hmanner rfl]
    exact run_read_value_absent hs hgap .float

/-! ### All letters -/

open Argument (codes allLiterals)

/-- The arguments are read letter by letter, in front of other letters only if these are optional.
All behind the stroke are counted. -/
theorem run_read_letters {manner : Manner} (hmanner : manner.expectNames = false)
    {signature : List Char}
    (hsignature : ∀ letter ∈ signature, letter ∈ ['S', 'c', 's', 'l', 'f', '/'])
    {behind : Bool} {rest text letters : List Char} {arguments : List Argument}
    (hlisted : Listed env s.locals rest behind text letters arguments)
    (hletters : letters <+: signature.filter (· != '/'))
    (henough : optional = false → (signature.takeWhile (· != '/')).length ≤ letters.length)
    (hs : s.scanner.Faces false text) (count : Nat) (parts : List Code) :
    ∃ scanner gap, (readLetters env (Expression.scan env n) manner optional count parts signature :
        Reading n σ (Nat × Code)).run p s h =
        ⟨.ok (count + (if optional then letters.length else
            letters.length - (signature.takeWhile (· != '/')).length),
            ((codes s.literals arguments).reverse ++ parts).flatten), p,
          { s with scanner, literals := s.literals.append (allLiterals arguments) }⟩ ∧
      scanner.Faces false (gap ++ '\n' :: rest) ∧ Gap gap := by
  induction signature generalizing optional behind text letters arguments s count parts with
  | nil =>
      obtain rfl : letters = [] := List.prefix_nil.1 hletters
      cases hlisted with
      | @close _ gap hgap =>
          refine ⟨s.scanner, gap, ?_, hs, hgap⟩
          simp [readLetters, codes, allLiterals]
  | cons letter signature ih =>
      have hsignature' := fun later hlater => hsignature later (List.mem_cons_of_mem letter hlater)
      by_cases hstroke : letter = '/'
      · subst hstroke
        obtain ⟨scanner, gap, hrun, hscanner, hgap⟩ := ih hsignature' hlisted
          (by simpa using hletters) (show true = false → _ by rintro ⟨⟩) hs count parts
        refine ⟨scanner, gap, ?_, hscanner, hgap⟩
        rw [readLetters, if_pos rfl, hrun]
        simp
      · have hkept : (letter != '/') = true := by simpa using hstroke
        have hfilter : (letter :: signature).filter (· != '/') =
            letter :: signature.filter (· != '/') := List.filter_cons_of_pos hkept
        have hmandatory : (letter :: signature).takeWhile (· != '/') =
            letter :: signature.takeWhile (· != '/') := List.takeWhile_cons_of_pos hkept
        rw [hfilter] at hletters
        rw [hmandatory] at henough ⊢
        rw [readLetters, if_neg hstroke]
        cases hlisted with
        | @close _ gap hgap =>
            -- No argument is left, so that the letter is optional.
            cases optional with
            | false => exact absurd (henough rfl) (by simp)
            | true =>
                have hletter : letter ∈ ['S', 'c', 's', 'l', 'f'] := by
                  simpa [hstroke] using hsignature letter List.mem_cons_self
                obtain ⟨scanner, hrun, hscanner⟩ := run_read_letter_absent hmanner hletter hs hgap
                obtain ⟨_, hbind⟩ := Reading.exists_run_bind_of_ok hrun
                refine ⟨scanner, gap, ?_, hscanner, hgap⟩
                rw [hbind]
                simp [codes, allLiterals]
        | @more _ lead chars text letters letter' argument arguments hlead hwritten hrest =>
            obtain ⟨rfl, hothers⟩ := List.cons_prefix_cons.1 hletters
            obtain ⟨back, c, more, sign, rfl, hback, hc⟩ := hrest.exists_closing
            obtain ⟨scanner, hrun, hscanner⟩ :=
              run_read_letter hmanner hs hlead hwritten hback hc
            obtain ⟨_, hbind⟩ := Reading.exists_run_bind_of_ok hrun
            let between : Session :=
              { s with scanner, literals := s.literals.append argument.literals }
            have hrest' : Listed env between.locals rest true _ letters arguments := hrest
            obtain ⟨final, gap, hfollow, hfinal, hgap⟩ := ih hsignature' hrest' hothers
              (fun hoptional => Nat.le_of_succ_le_succ (henough hoptional)) hscanner
              (if optional then count + 1 else count) (argument.code s.literals :: parts)
            refine ⟨final, gap, ?_, hfinal, hgap⟩
            have hcount : (if optional then count + 1 else count) + (if optional then letters.length
                else letters.length - (signature.takeWhile (· != '/')).length) =
                count + if optional then letters.length + 1
                else letters.length + 1 - ((signature.takeWhile (· != '/')).length + 1) := by
              split <;> omega
            rw [hbind]
            dsimp only
            rw [hfollow, hcount]
            simp [between, codes, allLiterals, Literals.append_assoc]

/-- A line with a value that becomes a short, one that becomes a float and a text. The scanner is
behind the first word. -/
def threeArguments : Session where
  scanner :=
    ((Scanner.ofText "give y * 2 , - x / ( 3 < 4 ) , \"Sword\" \nend").pull {}).scanner
  locals := { shorts := ["x"] }

/-- The global variables of the line. -/
def threeEnvironment : Environment := { globals := [("y", .float)] }

theorem three_arguments_listed :
    Listed threeEnvironment threeArguments.locals ['e', 'n', 'd'] false threeArguments.scanner.rest
      ['s', 'f', 'c']
      [.number (.binary .mul (.atom (.globalVariable .float "y")) (.atom (.int 2))) .short,
        .number (.binary .div (.negate (.atom (.localVariable .short 0)))
          (.binary (.compare .less) (.atom (.int 3)) (.atom (.int 4)))) .float,
        .text "sword"] := by
  let registry := threeEnvironment.extensions
  have hgap : Gap [' '] := Text.forall_mem_of_all (by decide)
  have hsome : [' '] ≠ [] := by decide
  have hname (c : Char) (hc : c = 'x' ∨ c = 'y') :
      Token.Written registry (.name (String.ofList [c])) [c] := by
    obtain rfl | rfl := hc <;> exact .name (by decide) (by decide) rfl (by decide)
  have hint (c : Char) (hc : c.isDigit = true) :
      Token.Written registry (.int (Scanner.integerValue [c])) [c] := .int (by simpa using hc)
  have hmark {sign : Special} {c : Char} (h : (sign, c) ∈ Lexeme.marks) :
      Token.Written registry (.special sign) [c] := .mark h
  have hless : Token.Written registry (.special (.comparison .less)) ['<'] := .comparison rfl
  have hproduct : Token.Spaced registry [.name "y", .special .times, .int 2] "y * 2".toList :=
    .cons (hname 'y' (by decide)) hgap hsome <| .cons (hmark (by decide)) hgap hsome <|
    .single (hint '2' rfl)
  have hquotient : Token.Spaced registry
      [.special .minus, .name "x", .special .divided, .special .opening, .int 3,
        .special (.comparison .less), .int 4, .special .closing] "- x / ( 3 < 4 )".toList :=
    .cons (hmark (by decide)) hgap hsome <| .cons (hname 'x' (by decide)) hgap hsome <|
    .cons (hmark (by decide)) hgap hsome <| .cons (hmark (by decide)) hgap hsome <|
    .cons (hint '3' rfl) hgap hsome <| .cons hless hgap hsome <|
    .cons (hint '4' rfl) hgap hsome <| .single (hmark (by decide))
  have hatom {token : Token} {operand : Operand}
      (h : Operand.ofToken? threeEnvironment threeArguments.locals token = some operand) :
      Formula.Derives threeEnvironment threeArguments.locals .unit [token] (.atom operand) :=
    .atom h
  have hcompare : Formula.Derives threeEnvironment threeArguments.locals .expression
      [.int 3, .special (.comparison .less), .int 4] _ :=
    .binary rfl rfl (.single rfl (.single rfl (.single rfl (hatom rfl))))
      (.single rfl (.single rfl (hatom rfl)))
  refine .more (.first hgap) (.number rfl hproduct
    (.binary rfl rfl (.single rfl (hatom rfl)) (hatom rfl))) ?_
  refine .more (.behind hgap hgap) (.number rfl hquotient
    (.binary rfl rfl (.single rfl (.minus (hatom rfl))) (.group hcompare))) ?_
  exact .more (.behind hgap hgap)
    (@Argument.Written.lowerText _ _ "Sword".toList (by decide) (by decide) (by decide))
    (.close hgap)

end ArgumentList

/-- Behind the text of a message a name is expected up to the next comma. Without the comma a number
is read as a name, and the message gets its value as a float that is converted back. -/
theorem five_behind_message :
    (compileScript {} "begin x\nmessagebox \"%d\", 5\nend\n" {}).outcome =
        .ok { name := "x", literals := { integers := [5], strings := ["%d"] }
              code := [0, 0xc8000004, 0, 0xc0000000] } ∧
      (compileScript {} "begin x\nmessagebox \"%d\" 5\nend\n" {}).outcome =
        .ok { name := "x", literals := { floats := [⟨0x40a00000⟩], strings := ["%d"] }
              code := [0, 0xc8000005, 0xc8000006, 0, 0xc0000000] } := by
  decide +kernel

end QuestScript
