import QuestScript.Extension
import QuestScript.Proofs.LowerCase
import QuestScript.Proofs.Words

/-!
# Registrations

The host registers its functions and instructions one by one, and some of these requests are
refused. `Registration.request_cases` says what a request does to the counter and the three tables,
and `Registry.Records` what they hold behind any number of requests.

The main statement is `Registry.after_consistent`: the keywords are numbered in the order in which
they have been taken, each number stands in one of the tables, and a request that is refused has
changed nothing.
-/

namespace QuestScript

/-- A request to register an instruction or, with a type to return, a function. -/
structure Registration where
  keyword : String
  returns : Option ValueType
  arguments : String
  code : UInt32
  explicitCode : Option UInt32
  deriving DecidableEq

/-- The operation numbers that the host may give to calls with a signature. -/
def hostCodes (arguments : String) : Set Nat :=
  if '/' ∈ arguments.toList then Set.Icc 0x20000 0x2ffff else Set.Icc 0x2000000 0x3ffffff

/-- The operation number can be told from the built-in ones, and a call with it fits a word. -/
def CallFormat.Encodes (opcode : UInt32) : CallFormat → Prop
  | .three => opcode ≠ Instruction.messageBoxOp ∧ ∀ optionals : UInt32, optionals.toNat < 256 →
      Instruction.decode? (Instruction.segment3 opcode optionals).encode =
        some (.segment3 opcode optionals)
  | .five => Opcode.ofCode? opcode = none ∧
      Instruction.decode? (Instruction.segment5 opcode).encode = some (.segment5 opcode)

theorem CallFormat.admits_iff (arguments : String) (opcode : UInt32) :
    (ofSignature arguments).admits opcode = true ↔ opcode.toNat ∈ hostCodes arguments := by
  by_cases h : '/' ∈ arguments.toList <;>
    simp [ofSignature, hostCodes, h, admits, UInt32.le_iff_toNat_le]

theorem CallFormat.encodes_of_admits {format : CallFormat} {opcode : UInt32}
    (h : format.admits opcode = true) : format.Encodes opcode := by
  cases format with
  | three =>
      simp only [admits, Bool.and_eq_true, decide_eq_true_eq, UInt32.le_iff_toNat_le] at h
      have hlow : 0x20000 ≤ opcode.toNat := h.1
      have hhigh : opcode.toNat ≤ 0x2ffff := h.2
      refine ⟨?_, fun optionals => Instruction.decode_encode_segment3 (by omega)⟩
      rintro rfl
      exact absurd hlow (by decide)
  | five =>
      simp only [admits, Bool.and_eq_true, decide_eq_true_eq, UInt32.le_iff_toNat_le] at h
      have hlow : 0x2000000 ≤ opcode.toNat := h.1
      have hhigh : opcode.toNat ≤ 0x3ffffff := h.2
      have hlength : Opcode.all.length ≤ opcode.toNat := Nat.le_trans (by decide) hlow
      exact ⟨List.getElem?_eq_none hlength, Instruction.decode_encode_segment5 (by omega)⟩

namespace Registry

/-- The host has this function or instruction under this keyword. -/
def Has (registry : Registry) (keyword : String) (extension : Extension) : Prop :=
  ∃ code, registry.codeOf? keyword = some code ∧
    (registry.function? code = some extension ∨ registry.instruction? code = some extension)

/-- The registry with an entry under a number. -/
def insert (isFunction : Bool) (number : Int) (extension : Extension) (registry : Registry) :
    Registry :=
  if isFunction then
    { registry with functions := putEntry registry.functions number extension }
  else { registry with instructions := putEntry registry.instructions number extension }

/-- A keyword gets the next number, unless it is in use. -/
theorem allocate_eq (keyword : String) (registry : Registry) :
    allocate keyword registry =
      if (registry.codeOf? (Text.toLower keyword)).isSome then
        .error (.duplicateKeyword (Text.toLower keyword)) registry
      else
        .ok registry.nextCode
          { registry with
            nextCode := registry.nextCode - 1
            keywords := putEntry registry.keywords (Text.toLower keyword) registry.nextCode } := by
  unfold allocate
  dsimp only [bind, EStateM.bind, get, getThe, MonadStateOf.get, EStateM.get]
  split <;> rfl

/-- The keywords that are listed are those that the scanner knows. -/
theorem mem_all_keywords_iff {registry : Registry} {word : String} :
    word ∈ registry.allKeywords ↔ (registry.keyword? word).isSome = true := by
  have hhost : word ∈ registry.keywords.map (·.1) ↔ (registry.codeOf? word).isSome = true := by
    rw [codeOf?, List.lookup_isSome_iff, List.mem_map]
    simp only [beq_iff_eq, @eq_comm _ word]
  rw [allKeywords, List.mem_append, List.mem_mergeSort, hhost, keyword?]
  cases hbuiltin : Builtin.ofSpelling? word with
  | none =>
      have hnone := List.find?_eq_none.1 hbuiltin
      simp_all
  | some builtin =>
      have hspelling : builtin.spelling = word := by simpa using List.find?_some hbuiltin
      have hmem : word ∈ Builtin.all.map Builtin.spelling :=
        List.mem_map.2 ⟨builtin, List.mem_of_find?_eq_some hbuiltin, hspelling⟩
      simp [hmem]

end Registry

namespace Registration

variable {r : Registration} {registry : Registry}

/-- The request, as it is made to a registry. -/
def request (r : Registration) : Registering Unit :=
  match r.returns with
  | some type => Registry.addFunction r.keyword type r.arguments r.code r.explicitCode
  | none => Registry.addInstruction r.keyword r.arguments r.code r.explicitCode

/-- A request is refused for its type, for an operation number, or for its keyword. -/
def Refused (r : Registration) (registry : Registry) : Prop :=
  r.returns = some .short ∨
    (∃ opcode ∈ r.code :: r.explicitCode.toList, opcode.toNat ∉ hostCodes r.arguments) ∨
    (registry.codeOf? (Text.toLower r.keyword)).isSome = true

/-- The function or instruction that is asked for. -/
def extension (r : Registration) : Extension :=
  ⟨r.returns, r.arguments, r.code, r.explicitCode, .ofSignature r.arguments⟩

/-- The registry with one more keyword, and one more entry in the table where it belongs. -/
def extend (r : Registration) (registry : Registry) : Registry :=
  Registry.insert r.returns.isSome registry.nextCode r.extension
    { registry with
      nextCode := registry.nextCode - 1
      keywords := putEntry registry.keywords (Text.toLower r.keyword) registry.nextCode }

theorem build_cases (r : Registration) :
    (∃ opcode ∈ r.code :: r.explicitCode.toList, opcode.toNat ∉ hostCodes r.arguments) ∧
        (∃ error, Extension.build r.keyword r.returns r.arguments r.code r.explicitCode =
          .error error) ∨
      (∀ opcode ∈ r.code :: r.explicitCode.toList, opcode.toNat ∈ hostCodes r.arguments) ∧
        Extension.build r.keyword r.returns r.arguments r.code r.explicitCode =
          .ok r.extension := by
  unfold Extension.build
  dsimp only
  split
  next wrong hfind =>
      refine Or.inl ⟨⟨wrong, List.mem_of_find?_eq_some hfind, ?_⟩, _, rfl⟩
      rw [← CallFormat.admits_iff]
      simpa using List.find?_some hfind
  next hfind =>
      refine Or.inr ⟨fun opcode hopcode => ?_, rfl⟩
      rw [← CallFormat.admits_iff]
      simpa using List.find?_eq_none.1 hfind opcode hopcode

/-- A request for another type than a short checks the operation numbers, then takes a number, and
only then makes the entry. -/
theorem request_eq (hshort : r.returns ≠ some .short) :
    r.request =
      MonadExcept.ofExcept
        (Extension.build r.keyword r.returns r.arguments r.code r.explicitCode) >>=
      fun extension => Registry.allocate r.keyword >>=
      fun number => modify (Registry.insert r.returns.isSome number extension) := by
  unfold request
  split
  next type htype =>
      rw [htype] at hshort ⊢
      unfold Registry.addFunction
      rw [if_neg fun h => hshort (congrArg some h)]
      rfl
  next hnone =>
      rw [hnone]
      rfl

/-- What becomes of a request: it is refused and the registry is as it was, or it has its keyword
and its entry. -/
theorem request_cases (r : Registration) (registry : Registry) :
    r.Refused registry ∧ (∃ error, r.request registry = .error error registry) ∨
      ¬r.Refused registry ∧ r.request registry = .ok () (r.extend registry) := by
  by_cases hshort : r.returns = some .short
  · refine Or.inl ⟨Or.inl hshort, .invalidReturnType r.keyword, ?_⟩
    rw [request, hshort]
    rfl
  rw [request_eq hshort]
  obtain ⟨hwrong, error, hbuild⟩ | ⟨hadmits, hbuild⟩ := r.build_cases
  · exact Or.inl ⟨Or.inr (Or.inl hwrong), error, by rw [hbuild]; rfl⟩
  rw [hbuild]
  dsimp only [bind, EStateM.bind, MonadExcept.ofExcept, pure, EStateM.pure]
  rw [Registry.allocate_eq]
  by_cases hknown : (registry.codeOf? (Text.toLower r.keyword)).isSome = true
  · rw [if_pos hknown]
    exact Or.inl ⟨Or.inr (Or.inr hknown), _, rfl⟩
  · rw [if_neg hknown]
    refine Or.inr ⟨?_, ?_⟩
    · rintro (hshort' | ⟨opcode, hopcode, hwrong⟩ | hknown')
      · exact hshort hshort'
      · exact hwrong (hadmits opcode hopcode)
      · exact hknown hknown'
    · rfl

end Registration

namespace Registry

variable {registry : Registry} {accepted : List Registration} {r : Registration}

/-- The number of the request at a position. -/
def codeAt (position : Nat) : Int :=
  -(position + 1)

/-- The request has been taken under this number. -/
def Numbered (accepted : List Registration) (code : Int) (r : Registration) : Prop :=
  ∃ i, accepted[i]? = some r ∧ code = codeAt i

/-- The table holds the functions, or the instructions, of these requests under their numbers. -/
def Lists (accepted : List Registration) (isFunction : Bool) (table : List (Int × Extension)) :
    Prop :=
  ∀ code extension, table.lookup code = some extension ↔
    ∃ r, Numbered accepted code r ∧ r.returns.isSome = isFunction ∧ r.extension = extension

/-- The registry holds these requests and nothing else, numbered in their order. -/
structure Records (registry : Registry) (accepted : List Registration) : Prop where
  next : registry.nextCode = codeAt accepted.length
  keywords : ∀ word code, registry.codeOf? word = some code ↔
    ∃ r, Numbered accepted code r ∧ Text.toLower r.keyword = word
  functions : Lists accepted true registry.functions
  instructions : Lists accepted false registry.instructions
  returns : ∀ r ∈ accepted, r.returns ≠ some .short
  codes : ∀ r ∈ accepted, ∀ opcode ∈ r.code :: r.explicitCode.toList,
    opcode.toNat ∈ hostCodes r.arguments

theorem code_at_inj {i j : Nat} : codeAt i = codeAt j ↔ i = j := by
  unfold codeAt
  omega

/-- One more request has the next number. -/
theorem numbered_concat {code : Int} {r' : Registration} :
    Numbered (accepted ++ [r]) code r' ↔
      Numbered accepted code r' ∨ code = codeAt accepted.length ∧ r' = r := by
  constructor
  · rintro ⟨i, hget, rfl⟩
    rcases Nat.lt_or_ge i accepted.length with hi | hi
    · exact Or.inl ⟨i, by rwa [List.getElem?_append_left hi] at hget, rfl⟩
    · rw [List.getElem?_append_right hi, List.getElem?_singleton] at hget
      split at hget
      next hzero =>
          cases hget
          exact Or.inr ⟨by rw [Nat.le_antisymm (by omega) hi], rfl⟩
      next => cases hget
  · rintro (⟨i, hget, rfl⟩ | ⟨rfl, rfl⟩)
    · obtain ⟨hi, -⟩ := List.getElem?_eq_some_iff.1 hget
      exact ⟨i, by rwa [List.getElem?_append_left hi], rfl⟩
    · exact ⟨accepted.length, by simp, rfl⟩

/-- Two requests do not share a number. -/
theorem Numbered.unique {code : Int} {r' : Registration} (h : Numbered accepted code r)
    (h' : Numbered accepted code r') : r = r' := by
  obtain ⟨i, hget, rfl⟩ := h
  obtain ⟨j, hget', heq⟩ := h'
  rw [code_at_inj.1 heq, hget'] at hget
  cases hget
  rfl

theorem not_numbered_length : ¬Numbered accepted (codeAt accepted.length) r := by
  rintro ⟨i, hget, heq⟩
  rw [← code_at_inj.1 heq] at hget
  simp at hget

theorem Numbered.mem {code : Int} (h : Numbered accepted code r) : r ∈ accepted := by
  obtain ⟨i, hget, -⟩ := h
  exact List.mem_of_getElem? hget

theorem Records.empty : Records {} [] where
  next := rfl
  keywords _ _ := by simp [codeOf?, Numbered]
  functions _ _ := by simp [Numbered]
  instructions _ _ := by simp [Numbered]
  returns := by simp
  codes := by simp

section Extend

variable {isFunction : Bool} {table : List (Int × Extension)}

/-- A request has its entry in one of the tables. -/
theorem Lists.lookup_of_numbered {code : Int} (h : Lists accepted isFunction table)
    (hnumber : Numbered accepted code r) :
    table.lookup code = if r.returns.isSome = isFunction then some r.extension else none := by
  split
  next hr => exact (h code _).2 ⟨r, hnumber, hr, rfl⟩
  next hr =>
      refine Option.eq_none_iff_forall_ne_some.2 fun extension hlookup => ?_
      obtain ⟨r', hnumber', hr', -⟩ := (h code extension).1 hlookup
      rw [hnumber'.unique hnumber] at hr'
      exact hr hr'

theorem Lists.lookup_eq_none {code : Int} (h : Lists accepted isFunction table)
    (hfree : ∀ r, ¬Numbered accepted code r) : table.lookup code = none := by
  refine Option.eq_none_iff_forall_ne_some.2 fun extension hlookup => ?_
  obtain ⟨r, hnumber, -⟩ := (h code extension).1 hlookup
  exact hfree r hnumber

/-- The entry of one more request goes under the next number. -/
theorem Lists.put (h : Lists accepted isFunction table) (hr : r.returns.isSome = isFunction) :
    Lists (accepted ++ [r]) isFunction
      (putEntry table (codeAt accepted.length) r.extension) := by
  intro code extension
  rw [lookup_put_entry]
  split
  next hcode =>
      subst hcode
      simp [numbered_concat, not_numbered_length, hr]
  next hcode =>
      rw [h code extension]
      simp [numbered_concat, hcode]

/-- A request for the other table leaves the table as it is. -/
theorem Lists.skip (h : Lists accepted isFunction table) (hr : r.returns.isSome ≠ isFunction) :
    Lists (accepted ++ [r]) isFunction table := by
  intro code extension
  rw [h code extension]
  simp only [numbered_concat]
  constructor
  · rintro ⟨r', hnumber, hreturns, hextension⟩
    exact ⟨r', Or.inl hnumber, hreturns, hextension⟩
  · rintro ⟨r', hnumber | ⟨-, rfl⟩, hreturns, hextension⟩
    · exact ⟨r', hnumber, hreturns, hextension⟩
    · exact absurd hreturns hr

/-- Counter and tables move together. -/
theorem Records.extend (h : registry.Records accepted) (hrefused : ¬r.Refused registry) :
    (r.extend registry).Records (accepted ++ [r]) := by
  obtain ⟨hshort, hopcodes, hunknown⟩ : r.returns ≠ some .short ∧
      (∀ opcode ∈ r.code :: r.explicitCode.toList, opcode.toNat ∈ hostCodes r.arguments) ∧
      registry.codeOf? (Text.toLower r.keyword) = none := by
    simpa [Registration.Refused, not_or] using hrefused
  have hkeywords (word : String) (code : Int) :
      (putEntry registry.keywords (Text.toLower r.keyword) registry.nextCode).lookup word =
          some code ↔
        ∃ r', Numbered (accepted ++ [r]) code r' ∧ Text.toLower r'.keyword = word := by
    have hold := h.keywords word code
    simp only [numbered_concat]
    rw [lookup_put_entry, h.next]
    split
    next hword =>
        subst hword
        constructor
        · rintro ⟨⟩
          exact ⟨r, Or.inr ⟨rfl, rfl⟩, rfl⟩
        · rintro ⟨r', hnumber | ⟨rfl, -⟩, hkeyword⟩
          · rw [hunknown] at hold
            cases hold.2 ⟨r', hnumber, hkeyword⟩
          · rfl
    next hword =>
        refine hold.trans ⟨?_, ?_⟩
        · rintro ⟨r', hnumber, hkeyword⟩
          exact ⟨r', Or.inl hnumber, hkeyword⟩
        · rintro ⟨r', hnumber | ⟨-, rfl⟩, hkeyword⟩
          · exact ⟨r', hnumber, hkeyword⟩
          · exact absurd hkeyword.symm hword
  have hnext : registry.nextCode - 1 = codeAt (accepted ++ [r]).length := by
    rw [h.next, List.length_append, List.length_singleton]
    unfold codeAt
    omega
  have hreturns : ∀ r' ∈ accepted ++ [r], r'.returns ≠ some .short := by
    rw [List.forall_mem_append]
    exact ⟨h.returns, List.forall_mem_singleton.2 hshort⟩
  have hcodes : ∀ r' ∈ accepted ++ [r], ∀ opcode ∈ r'.code :: r'.explicitCode.toList,
      opcode.toNat ∈ hostCodes r'.arguments := by
    rw [List.forall_mem_append]
    exact ⟨h.codes, List.forall_mem_singleton.2 hopcodes⟩
  unfold Registration.extend insert
  split
  next hsome =>
      refine ⟨hnext, hkeywords, ?_, h.instructions.skip (by simp [hsome]), hreturns, hcodes⟩
      rw [h.next]
      exact h.functions.put hsome
  next hnone =>
      refine ⟨hnext, hkeywords, h.functions.skip hnone, ?_, hreturns, hcodes⟩
      rw [h.next]
      exact h.instructions.put (by simpa using hnone)

end Extend

/-- The registry that a request has left behind, whether it has been refused or not. -/
def behind : EStateM.Result ExtensionError Registry Unit → Registry
  | .ok _ registry | .error _ registry => registry

/-- The registry behind a sequence of requests. -/
def after (requests : List Registration) : Registry :=
  requests.foldl (fun registry r => behind (r.request registry)) {}

/-- The requests of a sequence that are not refused. -/
def taken (registry : Registry) : List Registration → List Registration
  | [] => []
  | r :: requests =>
    match r.request registry with
    | .ok _ registry' => r :: taken registry' requests
    | .error _ registry' => taken registry' requests

/-- Whatever is requested, the registry holds what it has taken. -/
theorem Records.run (h : registry.Records accepted) (requests : List Registration) :
    (requests.foldl (fun registry r => behind (r.request registry)) registry).Records
      (accepted ++ taken registry requests) := by
  induction requests generalizing registry accepted with
  | nil => simpa [taken] using h
  | cons r requests ih =>
      rw [List.foldl_cons, taken]
      obtain ⟨-, error, herror⟩ | ⟨hrefused, hok⟩ := r.request_cases registry
      · rw [herror]
        exact ih h
      · rw [hok]
        show (List.foldl _ (r.extend registry) requests).Records _
        simpa using ih (h.extend hrefused)

/-- The registry has been built entry by entry. -/
inductive Built : Registry → Prop where
  | empty : Built {}
  | addFunction {registry registry' : Registry} {keyword arguments : String} {returns : ValueType}
      {code : UInt32} {explicitCode : Option UInt32} (h : Built registry)
      (hadd : addFunction keyword returns arguments code explicitCode registry =
        .ok () registry') : Built registry'
  | addInstruction {registry registry' : Registry} {keyword arguments : String} {code : UInt32}
      {explicitCode : Option UInt32} (h : Built registry)
      (hadd : addInstruction keyword arguments code explicitCode registry = .ok () registry') :
      Built registry'

theorem Records.request {registry' : Registry} (h : registry.Records accepted)
    (hrequest : r.request registry = .ok () registry') :
    registry'.Records (accepted ++ [r]) := by
  obtain ⟨-, error, herror⟩ | ⟨hrefused, hok⟩ := r.request_cases registry
  · rw [hrequest] at herror
    cases herror
  · rw [hrequest] at hok
    cases hok
    exact h.extend hrefused

theorem Built.records (h : registry.Built) : ∃ accepted, registry.Records accepted := by
  induction h with
  | empty => exact ⟨[], .empty⟩
  | addFunction _ hadd ih =>
      obtain ⟨accepted, hrecords⟩ := ih
      exact ⟨_, hrecords.request (r := ⟨_, some _, _, _, _⟩) hadd⟩
  | addInstruction _ hadd ih =>
      obtain ⟨accepted, hrecords⟩ := ih
      exact ⟨_, hrecords.request (r := ⟨_, none, _, _, _⟩) hadd⟩

namespace Built

variable {keyword : String} {code : Int} {extension : Extension} (h : registry.Built)

include h

theorem lower (hcode : registry.codeOf? keyword = some code) : Text.toLower keyword = keyword := by
  obtain ⟨accepted, hrecords⟩ := h.records
  obtain ⟨r, -, rfl⟩ := (hrecords.keywords _ _).1 hcode
  exact Text.to_lower_to_lower _

/-- Functions return something and have a keyword. -/
theorem function (hfunction : registry.function? code = some extension) :
    extension.returns.isSome = true ∧ ∃ keyword, registry.Has keyword extension := by
  obtain ⟨accepted, hrecords⟩ := h.records
  obtain ⟨r, hnumber, hsome, rfl⟩ := (hrecords.functions _ _).1 hfunction
  exact ⟨hsome, _, code, (hrecords.keywords _ _).2 ⟨r, hnumber, rfl⟩, Or.inl hfunction⟩

/-- Instructions return nothing and have a keyword. -/
theorem instruction (hinstruction : registry.instruction? code = some extension) :
    extension.returns = none ∧ ∃ keyword, registry.Has keyword extension := by
  obtain ⟨accepted, hrecords⟩ := h.records
  obtain ⟨r, hnumber, hnone, rfl⟩ := (hrecords.instructions _ _).1 hinstruction
  have hkeyword := (hrecords.keywords (Text.toLower r.keyword) code).2 ⟨r, hnumber, rfl⟩
  exact ⟨Option.isSome_eq_false_iff.1 hnone |> Option.isNone_iff_eq_none.1, _, code, hkeyword,
    Or.inr hinstruction⟩

/-- Every entry has the format of its signature and operation numbers of that format. -/
theorem admits (hentry : registry.Has keyword extension) :
    extension.format = .ofSignature extension.arguments ∧
      ∀ opcode ∈ extension.code :: extension.explicitCode.toList,
        extension.format.admits opcode = true := by
  obtain ⟨accepted, hrecords⟩ := h.records
  obtain ⟨r, hr, rfl⟩ : ∃ r ∈ accepted, r.extension = extension := by
    obtain ⟨code, -, hfunction | hinstruction⟩ := hentry
    · obtain ⟨r, hnumber, -, hr⟩ := (hrecords.functions _ _).1 hfunction
      exact ⟨r, hnumber.mem, hr⟩
    · obtain ⟨r, hnumber, -, hr⟩ := (hrecords.instructions _ _).1 hinstruction
      exact ⟨r, hnumber.mem, hr⟩
  refine ⟨rfl, fun opcode hopcode => ?_⟩
  exact (CallFormat.admits_iff _ _).2 (hrecords.codes r hr opcode hopcode)

end Built

/-- Whatever is requested, the registry numbers what it takes from `-1` downwards, under keywords
and in tables that do not clash, and with operation numbers of its own. A request is refused exactly
for its type, its operation numbers or its keyword, and then has changed nothing. -/
theorem after_consistent (requests : List Registration) :
    let registry := after requests
    let accepted := taken {} requests
    registry.nextCode = -(accepted.length + 1 : Int) ∧
    (∀ word code, registry.codeOf? word = some code ↔
      ∃ i, ∃ hi : i < accepted.length,
        code = -(i + 1 : Int) ∧ word = Text.toLower accepted[i].keyword) ∧
    (∀ word word' code, registry.codeOf? word = some code → registry.codeOf? word' = some code →
      word = word') ∧
    (∀ i (hi : i < accepted.length),
      if accepted[i].returns.isSome then
        registry.function? (-(i + 1 : Int)) = some accepted[i].extension ∧
          registry.instruction? (-(i + 1 : Int)) = none
      else
        registry.function? (-(i + 1 : Int)) = none ∧
          registry.instruction? (-(i + 1 : Int)) = some accepted[i].extension) ∧
    (∀ code, (∀ i < accepted.length, code ≠ -(i + 1 : Int)) →
      registry.function? code = none ∧ registry.instruction? code = none) ∧
    (∀ r ∈ accepted, ∀ opcode ∈ r.code :: r.explicitCode.toList,
      opcode.toNat ∈ hostCodes r.arguments ∧ r.extension.format.Encodes opcode) ∧
    (∀ code function, registry.function? code = some function →
      function.returns = some .long ∨ function.returns = some .float) ∧
    ∀ r : Registration,
      ((∃ error registry', r.request registry = .error error registry') ↔ r.Refused registry) ∧
      ∀ error registry', r.request registry = .error error registry' → registry' = registry := by
  intro registry accepted
  have h : registry.Records accepted := Records.empty.run requests
  have hnumbered (i : Nat) (hi : i < accepted.length) :
      Numbered accepted (-(i + 1 : Int)) accepted[i] := ⟨i, List.getElem?_eq_getElem hi, rfl⟩
  refine ⟨h.next, ?_, ?_, ?_, ?_, ?_, ?_, ?_⟩
  · intro word code
    rw [h.keywords]
    constructor
    · rintro ⟨r, ⟨i, hget, rfl⟩, rfl⟩
      obtain ⟨hi, rfl⟩ := List.getElem?_eq_some_iff.1 hget
      exact ⟨i, hi, rfl, rfl⟩
    · rintro ⟨i, hi, rfl, rfl⟩
      exact ⟨_, hnumbered i hi, rfl⟩
  · intro word word' code hword hword'
    obtain ⟨r, hnumber, rfl⟩ := (h.keywords word code).1 hword
    obtain ⟨r', hnumber', rfl⟩ := (h.keywords word' code).1 hword'
    rw [hnumber.unique hnumber']
  · intro i hi
    have hfunction := h.functions.lookup_of_numbered (hnumbered i hi)
    have hinstruction := h.instructions.lookup_of_numbered (hnumbered i hi)
    rw [function?, instruction?, hfunction, hinstruction]
    cases accepted[i].returns.isSome <;> simp
  · intro code hcode
    have hfree (r : Registration) : ¬Numbered accepted code r := by
      rintro ⟨i, hget, rfl⟩
      obtain ⟨hi, -⟩ := List.getElem?_eq_some_iff.1 hget
      exact hcode i hi rfl
    exact ⟨h.functions.lookup_eq_none hfree, h.instructions.lookup_eq_none hfree⟩
  · intro r hr opcode hopcode
    have hcode := h.codes r hr opcode hopcode
    exact ⟨hcode, CallFormat.encodes_of_admits ((CallFormat.admits_iff _ _).2 hcode)⟩
  · intro code function hfunction
    obtain ⟨r, hnumber, hsome, rfl⟩ := (h.functions code function).1 hfunction
    have hshort := h.returns r hnumber.mem
    rcases hreturns : r.returns with _ | _ | _ | _
    · simp [hreturns] at hsome
    · exact absurd hreturns hshort
    · exact Or.inl hreturns
    · exact Or.inr hreturns
  · intro r
    obtain ⟨hrefused, error, herror⟩ | ⟨hrefused, hok⟩ := r.request_cases registry
    · refine ⟨⟨fun _ => hrefused, fun _ => ⟨error, registry, herror⟩⟩, ?_⟩
      intro error' registry' herror'
      rw [herror] at herror'
      cases herror'
      rfl
    · refine ⟨⟨?_, fun h => absurd h hrefused⟩, ?_⟩
      · rintro ⟨error, registry', herror⟩
        rw [hok] at herror
        cases herror
      · intro error registry' herror
        rw [hok] at herror
        cases herror

end Registry

end QuestScript
