import Mathlib.Data.List.Induction
import Mathlib.Data.Multiset.ZeroCons
import Mathlib.Data.Set.Subsingleton
import QuestScript.Environment.Description

/-!
# The order of a description

The tables of a description are visited in some order, and their keys are brought to lower case
only then. Keys that become equal share one entry, which is the one that is visited last.
`Offers table name answer` tells what a table answers for a name in one order or another, and the
main statement, `build_reordered`, what that means for an environment: the outcome and the answers
about ids and about functions and instructions of the host are those of every order, and a variable
has the same type in every order exactly if its table offers one answer. A global variable that is
described twice, with two types, has either of them (`game_hour_either_type`).
-/

namespace QuestScript.Description

/-! ### A table whose keys are brought to lower case -/

/-- The answers of a table for a name, in one order of its entries or another. -/
inductive Offers {α : Type} (table : List (String × α)) (name : String) : Option α → Prop where
  | found {key : String} {value : α} :
      (key, value) ∈ table → Text.toLower key = name → Offers table name (some value)
  | missing : (∀ entry ∈ table, Text.toLower entry.1 ≠ name) → Offers table name none

section

variable {α : Type} {table table' : List (String × α)} {name : String} {answer : Option α}

/-- The entry that is visited last takes its key in lower case. -/
theorem lookup_lower_keys_concat (table : List (String × α)) (key : String) (value : α)
    (name : String) :
    (lowerKeys (table ++ [(key, value)])).lookup name =
      if name = Text.toLower key then some value
      else (lowerKeys table).lookup name := by
  unfold lowerKeys
  rw [List.foldl_append]
  exact lookup_put_entry _ _ _ _

/-- A table answers what it offers. -/
theorem offers_lookup (table : List (String × α)) (name : String) :
    Offers table name ((lowerKeys table).lookup name) := by
  induction table using List.reverseRecOn with
  | nil => exact .missing (by simp)
  | append_singleton table entry ih =>
      rw [lookup_lower_keys_concat]
      split
      next hname => exact .found (List.mem_append_right _ List.mem_cons_self) hname.symm
      next hname =>
        generalize (lowerKeys table).lookup name = answer at ih
        cases ih with
        | found hentry hkey => exact .found (List.mem_append_left _ hentry) hkey
        | missing hnone =>
            refine .missing fun other hother => ?_
            rcases List.mem_append.1 hother with hother | hother
            · exact hnone other hother
            · rw [List.mem_singleton.1 hother]
              exact fun heq => hname heq.symm

theorem Offers.of_perm (h : Offers table name answer) (hperm : table.Perm table') :
    Offers table' name answer := by
  cases h with
  | found hentry hkey => exact .found (hperm.mem_iff.1 hentry) hkey
  | missing hnone => exact .missing fun entry hentry => hnone entry (hperm.mem_iff.2 hentry)

/-- What a table offers is its answer in some order. -/
theorem Offers.exists_order (h : Offers table name answer) :
    ∃ table', table.Perm table' ∧ (lowerKeys table').lookup name = answer := by
  cases h with
  | @found key value hentry hkey =>
      obtain ⟨front, back, rfl⟩ := List.append_of_mem hentry
      refine ⟨front ++ back ++ [(key, value)], ?_, ?_⟩
      · exact List.perm_middle.trans (List.perm_append_singleton _ _).symm
      · rw [lookup_lower_keys_concat, if_pos hkey.symm]
  | missing hnone =>
      refine ⟨table, .refl _, ?_⟩
      have hoffers := offers_lookup table name
      generalize (lowerKeys table).lookup name = answer at hoffers
      cases hoffers with
      | found hentry hkey => exact absurd hkey (hnone _ hentry)
      | missing => rfl

/-- Values that are changed behind the keys are changed in the answers. -/
theorem lookup_lower_keys_map {β : Type} (change : α → β) (table : List (String × α))
    (name : String) :
    (lowerKeys (table.map fun entry => (entry.1, change entry.2))).lookup name =
      ((lowerKeys table).lookup name).map change := by
  induction table using List.reverseRecOn with
  | nil => rfl
  | append_singleton table entry ih =>
      rw [List.map_append, List.map_singleton, lookup_lower_keys_concat, lookup_lower_keys_concat,
        ih]
      split <;> rfl

end

/-! ### The tables of a description -/

/-- The same script, its variables in another order. -/
structure SameScript (entry entry' : String × MemberTable) : Prop where
  id : entry.1 = entry'.1
  reference : entry.2.reference = entry'.2.reference
  types : entry.2.types.Perm entry'.2.types

/-- The same description, the entries of its tables in another order. -/
structure Reordered (d d' : Description) : Prop where
  canDeclareLocals : d.canDeclareLocals = d'.canDeclareLocals
  ids : d.ids = d'.ids
  globals : d.globals.Perm d'.globals
  members : Multiset.Rel SameScript d.members d'.members
  functions : d.functions = d'.functions
  instructions : d.instructions = d'.instructions

/-- Whatever the order of the tables is, the description has the same outcome, and its environment
the same answer. -/
def OrderFree {β : Type} (d : Description) (query : Environment → β) : Prop :=
  ∀ d', d.Reordered d' → d'.build.map query = d.build.map query

/-- The answers about the variable `name` of the script of `id`, in one order of the tables or
another. -/
inductive OffersMember (d : Description) (name id : String) : Option (ValueType × Bool) → Prop where
  | script {table : MemberTable} {type : Option ValueType} :
      Offers d.members id (some table) → Offers table.types name type →
      OffersMember d name id (type.map (·, table.reference))
  | noScript : Offers d.members id none → OffersMember d name id none

/-- The environment that is described, with the functions and instructions of the host. -/
def environment (d : Description) (extensions : Registry) : Environment where
  canDeclareLocals := d.canDeclareLocals
  ids := (d.ids.map Text.toLower).eraseDups
  globals := lowerKeys d.globals
  members := lowerKeys (d.members.map fun (id, table) =>
    (id, { table with types := lowerKeys table.types }))
  extensions := extensions

theorem build_eq (d : Description) : d.build = d.registry.map d.environment := by
  unfold build
  cases d.registry <;> rfl

variable {d d' : Description} {name id : String}

theorem same_scripts_refl (members : Multiset (String × MemberTable)) :
    members.Rel SameScript members :=
  Multiset.rel_refl_of_refl_on fun _ _ => ⟨rfl, rfl, .refl _⟩

theorem Reordered.refl (d : Description) : d.Reordered d where
  canDeclareLocals := rfl
  ids := rfl
  globals := .refl _
  members := same_scripts_refl _
  functions := rfl
  instructions := rfl

theorem Reordered.registry_eq (h : d.Reordered d') : d'.registry = d.registry := by
  unfold registry
  rw [h.functions, h.instructions]

theorem Reordered.build_eq_error {cause : BuildError} (h : d.Reordered d')
    (herror : d.build = .error cause) : d'.build = .error cause := by
  rw [build_eq] at herror
  rw [build_eq, h.registry_eq]
  cases hregistry : d.registry with
  | error other =>
      rw [hregistry] at herror
      exact herror
  | ok extensions =>
      rw [hregistry] at herror
      cases herror

theorem member_type?_environment (d : Description) (extensions : Registry) (name id : String) :
    (d.environment extensions).memberType? name id =
      ((lowerKeys d.members).lookup id).bind fun table =>
        ((lowerKeys table.types).lookup name).map (·, table.reference) := by
  have hlookup := lookup_lower_keys_map
    (fun table : MemberTable => { table with types := lowerKeys table.types }) d.members id
  unfold Environment.memberType? environment
  dsimp only
  rw [hlookup]
  cases (lowerKeys d.members).lookup id with
  | none => rfl
  | some table =>
      simp only [Option.map_some, Option.bind_eq_bind, Option.bind_some]
      cases (lowerKeys table.types).lookup name <;> rfl

theorem offers_member_member_type? (d : Description) (extensions : Registry) (name id : String) :
    d.OffersMember name id ((d.environment extensions).memberType? name id) := by
  rw [member_type?_environment]
  have hscript := offers_lookup d.members id
  cases hlookup : (lowerKeys d.members).lookup id with
  | none => exact .noScript (hlookup ▸ hscript)
  | some table => exact .script (hlookup ▸ hscript) (offers_lookup table.types name)

/-- Another order offers nothing new. -/
theorem OffersMember.of_reordered {answer : Option (ValueType × Bool)} (hd : d.Reordered d')
    (h : d'.OffersMember name id answer) : d.OffersMember name id answer := by
  cases h with
  | @script table' type hscript htype =>
      cases hscript with
      | found hentry hkey =>
          obtain ⟨⟨key, table⟩, hmem, hid, hreference, htypes⟩ :=
            Multiset.exists_mem_of_rel_of_mem (Multiset.rel_flip.2 hd.members) hentry
          obtain rfl : key = _ := hid
          rw [← show table.reference = table'.reference from hreference]
          exact .script (.found hmem hkey) (htype.of_perm htypes.symm)
  | noScript hscript =>
      cases hscript with
      | missing hnone =>
          refine .noScript (.missing fun entry hentry => ?_)
          obtain ⟨entry', hmem', hsame⟩ := Multiset.exists_mem_of_rel_of_mem hd.members hentry
          rw [hsame.id]
          exact hnone entry' hmem'

/-- What is offered is the answer in some order of the tables. -/
theorem OffersMember.exists_reordered {answer : Option (ValueType × Bool)}
    (h : d.OffersMember name id answer) (extensions : Registry) :
    ∃ d', d.Reordered d' ∧ (d'.environment extensions).memberType? name id = answer := by
  cases h with
  | @script table type hscript htype =>
      cases hscript with
      | @found key _ hentry hkey =>
          obtain ⟨types, hperm, hlookup⟩ := htype.exists_order
          obtain ⟨front, back, hmembers⟩ := List.append_of_mem hentry
          -- the script comes last, with its variables in the order that gives the answer
          refine ⟨{ d with members := front ++ back ++ [(key, { table with types := types })] },
            { Reordered.refl d with members := ?_ }, ?_⟩
          · rw [hmembers, Multiset.coe_eq_coe.2 List.perm_middle,
              Multiset.coe_eq_coe.2 (List.perm_append_singleton _ _), ← Multiset.cons_coe,
              ← Multiset.cons_coe]
            exact .cons ⟨rfl, rfl, hperm⟩ (same_scripts_refl _)
          · rw [member_type?_environment, lookup_lower_keys_concat, if_pos hkey.symm,
              Option.bind_some,
              hlookup]
  | noScript hscript =>
      obtain ⟨members, hperm, hlookup⟩ := hscript.exists_order
      refine ⟨{ d with members := members }, { Reordered.refl d with members := ?_ }, ?_⟩
      · rw [Multiset.coe_eq_coe.2 hperm]
        exact same_scripts_refl _
      rw [member_type?_environment, hlookup, Option.bind_none]

/-! ### Answers that the order decides -/

variable {β : Type} {query : Environment → β}

theorem order_free_of_environment
    (h : ∀ d' extensions, d.Reordered d' →
      query (d'.environment extensions) = query (d.environment extensions)) :
    d.OrderFree query := by
  intro d' hd
  rw [build_eq, build_eq, hd.registry_eq]
  cases d.registry with
  | error => rfl
  | ok extensions => exact congrArg Except.ok (h d' extensions hd)

/-- A query whose answers in all orders are those on offer has one answer exactly if one is on
offer. Without an environment there is nothing to ask. -/
theorem order_free_iff_subsingleton {offered : Set β}
    (hsound : ∀ d' extensions, d.Reordered d' → query (d'.environment extensions) ∈ offered)
    (hcomplete : ∀ answer ∈ offered, ∀ extensions,
      ∃ d', d.Reordered d' ∧ query (d'.environment extensions) = answer) :
    d.OrderFree query ↔ (∃ cause, d.build = .error cause) ∨ offered.Subsingleton := by
  constructor
  · intro hfree
    cases hregistry : d.registry with
    | error cause => exact .inl ⟨cause, by rw [build_eq, hregistry]; rfl⟩
    | ok extensions =>
        have hanswer : ∀ answer ∈ offered, answer = query (d.environment extensions) := by
          intro answer hmem
          obtain ⟨d', hd, rfl⟩ := hcomplete answer hmem extensions
          have hmap := hfree d' hd
          rw [build_eq, build_eq, hd.registry_eq, hregistry] at hmap
          exact Except.ok.inj hmap
        exact .inr fun a ha b hb => (hanswer a ha).trans (hanswer b hb).symm
  · rintro (⟨cause, herror⟩ | hone)
    · exact fun d' hd => by rw [herror, hd.build_eq_error herror]
    · exact order_free_of_environment fun d' extensions hd =>
        hone (hsound d' extensions hd) (hsound d extensions (.refl d))

/-- What the order of the tables decides: neither the outcome nor the answers about local variables,
ids and the functions and instructions of the host, but the type of a variable that is described
more than once and not always alike. -/
theorem build_reordered (d : Description) :
    d.OrderFree (·.canDeclareLocals) ∧ d.OrderFree (·.extensions) ∧
      (∀ name, d.OrderFree (·.isId name)) ∧
      (∀ name, d.OrderFree (·.globalType? name) ↔
        (∃ cause, d.build = .error cause) ∨ {type | Offers d.globals name type}.Subsingleton) ∧
      ∀ name id, d.OrderFree (·.memberType? name id) ↔
        (∃ cause, d.build = .error cause) ∨
          {answer | d.OffersMember name id answer}.Subsingleton := by
  refine ⟨order_free_of_environment ?_, order_free_of_environment ?_,
    fun name => order_free_of_environment ?_, fun name => order_free_iff_subsingleton ?_ ?_,
    fun name id => order_free_iff_subsingleton ?_ ?_⟩
  · intro d' extensions hd
    exact hd.canDeclareLocals.symm
  · intro d' extensions hd
    rfl
  · intro d' extensions hd
    simp only [Environment.isId, environment, hd.ids]
  · intro d' extensions hd
    exact (offers_lookup d'.globals name).of_perm hd.globals.symm
  · intro type htype extensions
    obtain ⟨globals, hperm, hlookup⟩ := Offers.exists_order htype
    exact ⟨{ d with globals := globals }, { Reordered.refl d with globals := hperm }, hlookup⟩
  · intro d' extensions hd
    exact .of_reordered hd (offers_member_member_type? d' extensions name id)
  · intro answer hanswer extensions
    exact OffersMember.exists_reordered hanswer extensions

/-- Spellings of a name that agree on its type leave nothing to the order. -/
theorem game_hour_order_free :
    let d : Description := { globals := [("GameHour", .float), ("PCRace", .short),
      ("gamehour", .float)] }
    {type | Offers d.globals "gamehour" type}.Subsingleton ∧
      d.OrderFree (·.globalType? "gamehour") := by
  intro d
  have hfloat : ∀ type, Offers d.globals "gamehour" type → type = some .float := by
    intro type htype
    cases htype with
    | @found key value hentry hkey =>
        simp only [d, List.mem_cons, List.not_mem_nil, or_false, Prod.mk.injEq] at hentry
        rcases hentry with ⟨_, rfl⟩ | ⟨rfl, _⟩ | ⟨_, rfl⟩
        · rfl
        · exact absurd hkey (by decide)
        · rfl
    | missing hnone => exact absurd (by decide) (hnone ("GameHour", .float) List.mem_cons_self)
  have hone : {type | Offers d.globals "gamehour" type}.Subsingleton :=
    fun type htype type' htype' => (hfloat type htype).trans (hfloat type' htype').symm
  exact ⟨hone, ((build_reordered d).2.2.2.1 "gamehour").2 (.inr hone)⟩

/-- Two spellings of a name with two types: the variable has the type of the one that is visited
last. -/
theorem game_hour_either_type :
    let d : Description := { globals := [("GameHour", .float), ("gamehour", .short)] }
    let d' : Description := { globals := [("gamehour", .short), ("GameHour", .float)] }
    d.Reordered d' ∧ d.build.map (·.globalType? "gamehour") = .ok (some .short) ∧
      d'.build.map (·.globalType? "gamehour") = .ok (some .float) := by
  intro d d'
  exact ⟨{ Reordered.refl d with globals := .swap _ _ _ }, by decide +kernel, by decide +kernel⟩

end QuestScript.Description
