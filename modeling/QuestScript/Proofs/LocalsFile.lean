import Mathlib.Algebra.GroupWithZero.Nat
import Mathlib.Data.List.Forall2
import QuestScript.Compile

/-!
# The file of local variables

The file of the local variables tells how many there are of each type and then lists their names,
each followed by a blank. Where no name holds a blank the file determines the table
(`eq_of_write_eq`), also among tables with other names. A name in quotes may hold blanks, and then
two scripts without errors may have different tables and the same file (`quoted_names_same_file`).
-/

namespace QuestScript.Locals

/-- The part of the file that lists the names. -/
def listing (names : List String) : List Char :=
  names.flatMap fun name => name.toList ++ [' ']

theorem to_list_write (table : Locals) :
    table.write.toList = (Nat.repr table.shorts.length).toList ++ ' ' ::
      ((Nat.repr table.longs.length).toList ++ ' ' ::
        ((Nat.repr table.floats.length).toList ++ '\n' ::
          listing (table.shorts ++ table.longs ++ table.floats))) := by
  simp [write, listing, List.flatMap_map, toString]

/-! ### Lists that a sign divides -/

/-- The first sign of its kind divides a text in one way only. -/
theorem append_cons_inj_of_not_mem {sign : Char} {a b a' b' : List Char} (h : sign ∉ a)
    (h' : sign ∉ a') (heq : a ++ sign :: b = a' ++ sign :: b') : a = a' ∧ b = b' := by
  induction a generalizing a' with
  | nil =>
      cases a' with
      | nil => exact ⟨rfl, List.tail_eq_of_cons_eq heq⟩
      | cons c a' =>
          obtain rfl : sign = c := List.head_eq_of_cons_eq heq
          exact absurd List.mem_cons_self h'
  | cons c a ih =>
      cases a' with
      | nil =>
          obtain rfl : c = sign := List.head_eq_of_cons_eq heq
          exact absurd List.mem_cons_self h
      | cons c' a' =>
          obtain ⟨rfl, htail⟩ := List.cons_eq_cons.1 heq
          obtain ⟨rfl, rfl⟩ := ih (List.not_mem_of_not_mem_cons h) (List.not_mem_of_not_mem_cons h')
            htail
          exact ⟨rfl, rfl⟩

/-- A count is written in digits. -/
theorem not_mem_repr {sign : Char} (hsign : sign.isDigit = false) (n : Nat) :
    sign ∉ (Nat.repr n).toList := by
  intro h
  rw [Nat.repr_eq_ofList_toDigits, String.toList_ofList] at h
  rw [Nat.isDigit_of_mem_toDigits (by decide) (Nat.le_refl 10) h] at hsign
  cases hsign

/-- A count ends in front of the first sign that is no digit. -/
theorem repr_append_cons_inj {sign : Char} (hsign : sign.isDigit = false) {n m : Nat}
    {rest rest' : List Char}
    (h : (Nat.repr n).toList ++ sign :: rest = (Nat.repr m).toList ++ sign :: rest') :
    n = m ∧ rest = rest' := by
  obtain ⟨hcount, hrest⟩ := append_cons_inj_of_not_mem (not_mem_repr hsign n)
    (not_mem_repr hsign m) h
  rw [Nat.repr_eq_ofList_toDigits, Nat.repr_eq_ofList_toDigits, String.toList_ofList,
    String.toList_ofList] at hcount
  have hvalue := congrArg (Nat.ofDigitChars 10 · 0) hcount
  rw [Nat.ofDigitChars_ten_toDigits, Nat.ofDigitChars_ten_toDigits] at hvalue
  exact ⟨hvalue, hrest⟩

/-! ### The names -/

theorem count_blank_listing (names : List String) :
    (listing names).count ' ' = names.length + (names.map (·.toList.count ' ')).sum := by
  induction names with
  | nil => rfl
  | cons name names ih =>
      rw [listing, List.flatMap_cons, ← listing, List.count_append, List.count_append, ih]
      simp only [List.count_singleton_self, List.length_cons, List.map_cons, List.sum_cons]
      omega

/-- As many names as there are blanks hold none. -/
theorem no_blank_of_listing_eq {names names' : List String}
    (h : ∀ name ∈ names, ' ' ∉ name.toList) (hlength : names.length = names'.length)
    (heq : listing names = listing names') : ∀ name ∈ names', ' ' ∉ name.toList := by
  have hsum : (names.map (·.toList.count ' ')).sum = 0 := by
    simpa [List.sum_eq_zero_iff_forall_eq_nat, List.count_eq_zero] using h
  have hcount := congrArg (List.count ' ') heq
  rw [count_blank_listing, count_blank_listing, hsum, hlength] at hcount
  have hsum' : (names'.map (·.toList.count ' ')).sum = 0 := by omega
  simpa [List.sum_eq_zero_iff_forall_eq_nat, List.count_eq_zero] using hsum'

theorem listing_inj {names names' : List String} (h : ∀ name ∈ names, ' ' ∉ name.toList)
    (h' : ∀ name ∈ names', ' ' ∉ name.toList) (hlength : names.length = names'.length)
    (heq : listing names = listing names') : names = names' := by
  induction names generalizing names' with
  | nil => exact (List.length_eq_zero_iff.1 hlength.symm).symm
  | cons name names ih =>
      cases names' with
      | nil => cases hlength
      | cons name' names' =>
          obtain ⟨hname, hnames⟩ := List.forall_mem_cons.1 h
          obtain ⟨hname', hnames'⟩ := List.forall_mem_cons.1 h'
          simp only [listing, List.flatMap_cons, List.append_assoc, List.singleton_append] at heq
          obtain ⟨hfirst, hrest⟩ := append_cons_inj_of_not_mem hname hname' heq
          obtain rfl := String.toList_inj.1 hfirst
          rw [ih hnames hnames' (Nat.succ.inj hlength) hrest]

/-! ### The file -/

/-- A file that lists names without blanks is that of one table only. -/
theorem eq_of_write_eq {table table' : Locals}
    (hblank : ∀ type, ∀ name ∈ table.names type, ' ' ∉ name.toList)
    (hwrite : table.write = table'.write) : table = table' := by
  have htext := congrArg String.toList hwrite
  rw [to_list_write, to_list_write] at htext
  obtain ⟨hshorts, htext⟩ := repr_append_cons_inj (by decide) htext
  obtain ⟨hlongs, htext⟩ := repr_append_cons_inj (by decide) htext
  obtain ⟨hfloats, hlisting⟩ := repr_append_cons_inj (by decide) htext
  have hlength : (table.shorts ++ table.longs ++ table.floats).length =
      (table'.shorts ++ table'.longs ++ table'.floats).length := by
    simp only [List.length_append, hshorts, hlongs, hfloats]
  have hnames : ∀ name ∈ table.shorts ++ table.longs ++ table.floats, ' ' ∉ name.toList := by
    intro name hname
    rcases List.mem_append.1 hname with hname | hname
    · rcases List.mem_append.1 hname with hname | hname
      · exact hblank .short name hname
      · exact hblank .long name hname
    · exact hblank .float name hname
  have heq := listing_inj hnames (no_blank_of_listing_eq hnames hlength hlisting) hlength hlisting
  obtain ⟨hfront, hfloats⟩ := List.append_inj' heq hfloats
  obtain ⟨hshorts, hlongs⟩ := List.append_inj hfront hshorts
  obtain ⟨shorts, longs, floats⟩ := table
  obtain ⟨shorts', longs', floats'⟩ := table'
  cases hshorts
  cases hlongs
  cases hfloats
  rfl

/-- A script that is compiled and one that is only searched for its declarations have the same file,
so they declare the same. -/
theorem same_file_same_table :
    let compiled := compileScript {} "begin x\nshort a\nfloat b\nset a to 1\nend\n" {}
    let searched := scanLocals {} "begin y\nfloat B\nshort A\nend\n" {}
    compiled.log.isGood ∧ searched.log.isGood ∧ compiled.locals.write = "1 0 1\na b " ∧
      searched.locals.write = "1 0 1\na b " ∧ compiled.locals = searched.locals := by
  intro compiled searched
  have hwrite : compiled.locals.write = "1 0 1\na b " := by decide +kernel
  have hwrite' : searched.locals.write = "1 0 1\na b " := by decide +kernel
  have hblank : ∀ type, ∀ name ∈ compiled.locals.names type, ' ' ∉ name.toList := by
    intro type
    cases type <;> decide +kernel
  exact ⟨by decide +kernel, by decide +kernel, hwrite, hwrite',
    eq_of_write_eq hblank (hwrite.trans hwrite'.symm)⟩

/-- Two scripts without errors whose files are the same, although their names differ: blanks in
quotes look like those behind names. -/
theorem quoted_names_same_file :
    let first := compileScript {} "begin x\nshort \"a b\"\nshort c\nend\n" {}
    let second := compileScript {} "begin x\nshort a\nshort \"b c\"\nend\n" {}
    first.log.isGood ∧ second.log.isGood ∧
      first.outcome.map (·.locals) = .ok { shorts := ["a b", "c"] } ∧
      second.outcome.map (·.locals) = .ok { shorts := ["a", "b c"] } ∧
      Locals.write { shorts := ["a b", "c"] } = Locals.write { shorts := ["a", "b c"] } := by
  decide +kernel

end QuestScript.Locals
