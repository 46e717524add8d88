import Mathlib.Data.List.Forall2
import QuestScript.Extension
import QuestScript.Diagnostic
import QuestScript.MessageFormat

/-!
# Texts that stand for each other

Two runs of the readers can be compared although the names that they read are spelled differently.
A `Likeness` says which texts may stand for each other: those that the readers of a script do not
tell apart. Tokens, problems and literals are alike if the texts in them are. Wherever the assembler
makes literals it does not look at the texts, so that it makes the same code of texts that are alike
(`Literals.MakesAlike`).
-/

namespace QuestScript

/-- Which texts may stand for each other. -/
structure Likeness where
  rel : String → String → Prop
  refl : ∀ text, rel text text
  toLower_eq : ∀ {a b}, rel a b → Text.toLower b = Text.toLower a
  map_toLower_eq : ∀ {a b}, rel a b → b.map Char.toLower = a.map Char.toLower
  unquote : ∀ {a b}, rel a b → rel (unquote a) (unquote b)
  signature_eq : ∀ {a b}, rel a b → MessageFormat.signature b = MessageFormat.signature a

/-- Every text stands for itself only. -/
def Likeness.same : Likeness where
  rel a b := b = a
  refl _ := rfl
  toLower_eq h := by rw [h]
  map_toLower_eq h := by rw [h]
  unquote h := by rw [h]
  signature_eq h := by rw [h]

/-! ### Tokens -/

/-- Tokens that are the same up to the text of a name. -/
inductive Token.Alike (texts : Likeness) : Token → Token → Prop where
  | int (value : Int32) : Alike texts (.int value) (.int value)
  | float (value : Binary32) : Alike texts (.float value) (.float value)
  | name {a b : String} (h : texts.rel a b) : Alike texts (.name a) (.name b)
  | keyword (word : Keyword) : Alike texts (.keyword word) (.keyword word)
  | special (sign : Special) : Alike texts (.special sign) (.special sign)
  | comment (text : String) : Alike texts (.comment text) (.comment text)
  | endOfText : Alike texts .endOfText .endOfText

namespace Token.Alike

variable {texts : Likeness} {token token' : Token}

theorem refl (texts : Likeness) (token : Token) : Alike texts token token := by
  cases token with
  | int value => exact .int value
  | float value => exact .float value
  | name text => exact .name (texts.refl text)
  | keyword word => exact .keyword word
  | special sign => exact .special sign
  | comment text => exact .comment text
  | endOfText => exact .endOfText

theorem eq (h : Alike .same token token') : token' = token := by
  cases h with
  | name h => exact congrArg Token.name h
  | _ => rfl

theorem special_iff (h : Alike texts token token') (sign : Special) :
    token = .special sign ↔ token' = .special sign := by
  cases h with
  | special sign' => exact Iff.rfl
  | _ => exact ⟨nofun, nofun⟩

theorem is_keyword_eq (h : Alike texts token token') : token.isKeyword = token'.isKeyword := by
  cases h <;> rfl

end Token.Alike

/-! ### Problems -/

/-- Problems that are the same up to the names in their wording. -/
inductive Problem.Alike (texts : Likeness) : Problem → Problem → Prop where
  | same (problem : Problem) : Alike texts problem problem
  | extraAfterScriptName {a b : String} (h : texts.rel a b) :
      Alike texts (.extraAfterScriptName a) (.extraAfterScriptName b)
  | scriptNamesDiffer {a b : String} (h : texts.rel a b) :
      Alike texts (.scriptNamesDiffer a) (.scriptNamesDiffer b)

theorem Problem.Alike.eq {problem problem' : Problem} (h : Alike .same problem problem') :
    problem' = problem := by
  cases h with
  | same problem => rfl
  | extraAfterScriptName h => exact congrArg Problem.extraAfterScriptName h
  | scriptNamesDiffer h => exact congrArg Problem.scriptNamesDiffer h

/-! ### Literals -/

namespace Literals

/-- Literals that are the same up to the texts among them. -/
structure Alike (texts : Likeness) (pool pool' : Literals) : Prop where
  integers : pool'.integers = pool.integers
  floats : pool'.floats = pool.floats
  strings : List.Forall₂ texts.rel pool.strings pool'.strings

/-- On literals that are alike the two make the same, and the literals are alike afterwards. -/
def MakesAlike {α : Type} (texts : Likeness) (make make' : Literals → α × Literals) : Prop :=
  ∀ pool pool', pool.Alike texts pool' →
    (make' pool').1 = (make pool).1 ∧ (make pool).2.Alike texts (make' pool').2

namespace Alike

variable {texts : Likeness} {pool pool' : Literals}

theorem refl (texts : Likeness) (pool : Literals) : pool.Alike texts pool :=
  ⟨rfl, rfl, List.forall₂_same.2 fun text _ => texts.refl text⟩

theorem eq (h : pool.Alike .same pool') : pool' = pool := by
  obtain ⟨integers, floats, strings⟩ := pool
  obtain ⟨integers', floats', strings'⟩ := pool'
  obtain ⟨hintegers, hfloats, hstrings⟩ := h
  have hsame : strings = strings' :=
    List.forall₂_eq_eq_eq ▸ hstrings.imp fun _ _ h => Eq.symm h
  cases hintegers
  cases hfloats
  cases hsame
  rfl

theorem add_integer (h : pool.Alike texts pool') (value : Int32) :
    (pool'.addInteger value).1 = (pool.addInteger value).1 ∧
      (pool.addInteger value).2.Alike texts (pool'.addInteger value).2 := by
  unfold Literals.addInteger
  rw [h.integers]
  exact ⟨rfl, rfl, h.floats, h.strings⟩

theorem add_float (h : pool.Alike texts pool') (value : Binary32) :
    (pool'.addFloat value).1 = (pool.addFloat value).1 ∧
      (pool.addFloat value).2.Alike texts (pool'.addFloat value).2 := by
  unfold Literals.addFloat
  rw [h.floats]
  exact ⟨rfl, h.integers, rfl, h.strings⟩

theorem add_string (h : pool.Alike texts pool') {a b : String} (hab : texts.rel a b) :
    (pool'.addString b).1 = (pool.addString a).1 ∧
      (pool.addString a).2.Alike texts (pool'.addString b).2 := by
  unfold Literals.addString
  rw [h.strings.length_eq]
  exact ⟨rfl, h.integers, h.floats, List.rel_append h.strings (.cons hab .nil)⟩

end Alike

namespace MakesAlike

variable {texts : Likeness} {α β : Type} {make make' : Literals → α × Literals}

/-- What is made out of the value of another construct. -/
theorem map (wrap : α → β) (h : MakesAlike texts make make') :
    MakesAlike texts (fun pool => (wrap (make pool).1, (make pool).2))
      fun pool => (wrap (make' pool).1, (make' pool).2) := by
  intro pool pool' hpool
  obtain ⟨hvalue, hliterals⟩ := h pool pool' hpool
  exact ⟨congrArg wrap hvalue, hliterals⟩

theorem push_int (value : Int32) :
    MakesAlike texts (Assembly.pushInt value) (Assembly.pushInt value) := by
  have hindex : MakesAlike texts (·.addInteger value) (·.addInteger value) :=
    fun _ _ hpool => hpool.add_integer value
  exact hindex.map fun index => [Assembly.push index, Assembly.op .fetchIntLiteral]

theorem push_float (value : Binary32) :
    MakesAlike texts (Assembly.pushFloat value) (Assembly.pushFloat value) := by
  have hindex : MakesAlike texts (·.addFloat value) (·.addFloat value) :=
    fun _ _ hpool => hpool.add_float value
  exact hindex.map fun index => [Assembly.push index, Assembly.op .fetchFloatLiteral]

variable {a b : String}

theorem push_string (h : texts.rel a b) :
    MakesAlike texts (Assembly.pushString a) (Assembly.pushString b) := by
  have hindex : MakesAlike texts (·.addString a) (·.addString b) :=
    fun _ _ hpool => hpool.add_string h
  exact hindex.map fun index => [Assembly.push index]

theorem assign_to_global (type : ValueType) (h : texts.rel a b) (value : Code)
    (valueType : ValueType) :
    MakesAlike texts (Assembly.assignToGlobal type a value valueType)
      (Assembly.assignToGlobal type b value valueType) :=
  map (fun target => target ++ value ++ Assembly.convert valueType type ++
    [Assembly.op (Assembly.byType type .storeGlobalShort .storeGlobalLong .storeGlobalFloat)])
    (push_string h)

theorem fetch_global (type : ValueType) (h : texts.rel a b) :
    MakesAlike texts (Assembly.fetchGlobal type a) (Assembly.fetchGlobal type b) :=
  map (fun source => source ++
    [Assembly.op (Assembly.byType type .fetchGlobalShort .fetchGlobalLong .fetchGlobalFloat)])
    (push_string h)

theorem push_member {id id' : String} (h : texts.rel a b) (hid : texts.rel id id') :
    MakesAlike texts (Assembly.pushMember a id) (Assembly.pushMember b id') := by
  intro pool pool' hpool
  obtain ⟨hmember, hliterals⟩ := push_string h pool pool' hpool
  obtain ⟨howner, hliterals⟩ := push_string hid _ _ hliterals
  exact ⟨congrArg₂ (· ++ ·) hmember howner, hliterals⟩

theorem assign_to_member (type : ValueType) {id id' : String} (h : texts.rel a b)
    (hid : texts.rel id id') (value : Code) (valueType : ValueType) (global : Bool) :
    MakesAlike texts (Assembly.assignToMember type a id value valueType global)
      (Assembly.assignToMember type b id' value valueType global) :=
  map (fun target => target ++ value ++ Assembly.convert valueType type ++
    [Assembly.op (if global then
      Assembly.byType type .storeGlobalMemberShort .storeGlobalMemberLong .storeGlobalMemberFloat
    else Assembly.byType type .storeMemberShort .storeMemberLong .storeMemberFloat)])
    (push_member h hid)

theorem fetch_member (type : ValueType) {id id' : String} (h : texts.rel a b)
    (hid : texts.rel id id') (global : Bool) :
    MakesAlike texts (Assembly.fetchMember type a id global)
      (Assembly.fetchMember type b id' global) :=
  map (fun source => source ++ [Assembly.op (if global then
      Assembly.byType type .fetchGlobalMemberShort .fetchGlobalMemberLong .fetchGlobalMemberFloat
    else Assembly.byType type .fetchMemberShort .fetchMemberLong .fetchMemberFloat)])
    (push_member h hid)

theorem message (h : texts.rel a b) (buttons : Nat) :
    MakesAlike texts (Assembly.message a buttons) (Assembly.message b buttons) := by
  intro pool pool' hpool
  unfold Assembly.message
  split
  · exact ⟨rfl, hpool⟩
  · obtain ⟨hformat, hliterals⟩ := push_string h pool pool' hpool
    refine ⟨?_, hliterals⟩
    dsimp only
    rw [hformat]

theorem report (format : String) :
    MakesAlike texts (Assembly.report format) (Assembly.report format) :=
  map (fun code => code ++ [Assembly.op .report]) (push_string (texts.refl format))

theorem with_reference (id : String) (plain explicit : Opcode) :
    MakesAlike texts (Assembly.withReference id plain explicit)
      (Assembly.withReference id plain explicit) := by
  intro pool pool' hpool
  unfold Assembly.withReference
  split
  · exact ⟨rfl, hpool⟩
  · obtain ⟨hobject, hliterals⟩ := push_string (texts.refl id) pool pool' hpool
    refine ⟨?_, hliterals⟩
    dsimp only
    rw [hobject]

theorem call (extension : Extension) (id : String) (optionals : Nat) :
    MakesAlike texts (extension.call id optionals) (extension.call id optionals) := by
  intro pool pool' hpool
  unfold Extension.call
  split
  · exact ⟨rfl, hpool⟩
  split
  · exact ⟨rfl, hpool⟩
  split
  · exact ⟨rfl, hpool⟩
  · obtain ⟨hindex, hliterals⟩ := hpool.add_string (texts.refl id)
    dsimp only
    rw [hindex]
    obtain ⟨hobject, hliterals⟩ := push_int (Int32.ofNat (pool.addString id).1) _ _ hliterals
    exact ⟨by rw [hobject], hliterals⟩

theorem call_instruction (registry : Registry) (code : Int) (id : String) (optionals : Nat) :
    MakesAlike texts (registry.callInstruction code id optionals)
      (registry.callInstruction code id optionals) := by
  intro pool pool' hpool
  unfold Registry.callInstruction
  split
  · exact call _ id optionals pool pool' hpool
  · exact ⟨rfl, hpool⟩

end MakesAlike

end Literals

end QuestScript
