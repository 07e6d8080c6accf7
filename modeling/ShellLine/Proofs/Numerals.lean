import Mathlib.Data.List.TakeWhile
import Mathlib.Data.Nat.Digits.Defs
import ShellLine.Text.Numeral

/-!
# The grammar of numerals

`Numeral.Spells` says in rules what a numeral is: room, one sign or none, digits of any script that
an underscore may keep apart, and room again. The reader follows these rules and finds the value.
The room is settled first: a digit and a sign are never room, so what is left after trimming is the
one body that the text can have. The shortest spelling of a whole number is a numeral of that
number, unless it is too long.
-/

namespace ShellLine.Text

/-- The rows of digits lie between the blanks. -/
theorem isBlank_of_digit? {c : Char} {d : Nat} (h : digit? c = some d) : isBlank c = false := by
  have hgaps : ∀ row ∈ digitZeros, 0x20 < row ∧ (row + 10 ≤ 0x85 ∨ 0xA0 < row) ∧
      (row + 10 ≤ 0x1680 ∨ 0x1680 < row) ∧ (row + 10 ≤ 0x2000 ∨ 0x205F < row) ∧
      (row + 10 ≤ 0x3000 ∨ 0x3000 < row) := by decide
  obtain ⟨row, hfind, -⟩ := Option.map_eq_some_iff.mp h
  have hgap := hgaps row (List.mem_of_find?_eq_some hfind)
  have hrow := List.find?_some hfind
  simp only [Bool.and_eq_true, decide_eq_true_eq] at hrow
  simp only [isBlank, Bool.or_eq_false_iff, Bool.and_eq_false_iff, decide_eq_false_iff_not,
    beq_eq_false_iff_ne]
  omega

theorem digit?_of_isDigit {c : Char} (h : c.isDigit = true) :
    digit? c = some (c.toNat - '0'.toNat) := by
  obtain ⟨hlow, hhigh⟩ := Char.isDigit_iff_toNat.mp h
  have hrow : (decide (0x0030 ≤ c.toNat) && decide (c.toNat < 0x0030 + 10)) = true := by
    simp only [Bool.and_eq_true, decide_eq_true_eq]
    exact ⟨hlow, Nat.lt_succ_of_le hhigh⟩
  have hfind : (digitZeros.find? fun row => row ≤ c.toNat && c.toNat < row + 10) = some 0x0030 :=
    List.find?_cons_of_pos hrow
  rw [digit?, hfind]
  rfl

namespace Numeral

/-- Digits with these values, where an underscore may stand between two. -/
inductive Digits : List Char → List Nat → Prop
  | last {c : Char} {d : Nat} (h : digit? c = some d) : Digits [c] [d]
  | next {c : Char} {d : Nat} {cs : List Char} {ds : List Nat} (h : digit? c = some d)
      (hrest : Digits cs ds) : Digits (c :: cs) (d :: ds)
  | apart {c : Char} {d : Nat} {cs : List Char} {ds : List Nat} (h : digit? c = some d)
      (hrest : Digits cs ds) : Digits (c :: '_' :: cs) (d :: ds)

/-- Digits of this value that are not too many; the last one counts ones. -/
def Unsigned (cs : List Char) (n : Nat) : Prop :=
  ∃ ds, Digits cs ds ∧ ds.length ≤ 4300 ∧ Nat.ofDigits 10 ds.reverse = n

inductive Signed : List Char → Int → Prop
  | bare {cs : List Char} {n : Nat} (h : Unsigned cs n) : Signed cs n
  | plus {cs : List Char} {n : Nat} (h : Unsigned cs n) : Signed ('+' :: cs) n
  | minus {cs : List Char} {n : Nat} (h : Unsigned cs n) : Signed ('-' :: cs) (-n)

/-- The text is a numeral of this value, with characters of one kind around it. -/
def Spells (room : Char → Bool) (text : String) (v : Int) : Prop :=
  ∃ before body after, text.toList = before ++ body ++ after ∧ (∀ c ∈ before, room c = true) ∧
    Signed body v ∧ ∀ c ∈ after, room c = true

section Digits

variable {cs : List Char} {ds : List Nat}

theorem Digits.exists_cons (h : Digits cs ds) :
    ∃ c rest d, cs = c :: rest ∧ digit? c = some d := by
  cases h with
  | last h | next h | apart h => exact ⟨_, _, _, rfl, h⟩

theorem Digits.exists_concat (h : Digits cs ds) :
    ∃ front c d, cs = front ++ [c] ∧ digit? c = some d := by
  induction h with
  | last h => exact ⟨[], _, _, rfl, h⟩
  | @next c _ _ _ _ _ ih =>
    obtain ⟨front, last, d, rfl, hd⟩ := ih
    exact ⟨c :: front, last, d, rfl, hd⟩
  | @apart c _ _ _ _ _ ih =>
    obtain ⟨front, last, d, rfl, hd⟩ := ih
    exact ⟨c :: '_' :: front, last, d, rfl, hd⟩

theorem digits?_eq_some_iff : digits? cs = some ds ↔ Digits cs ds := by
  constructor
  · intro h
    fun_induction digits? cs generalizing ds with
    | case1 => cases h
    | case2 c =>
      obtain ⟨d, hd, rfl⟩ := Option.map_eq_some_iff.mp h
      exact .last hd
    | case3 c rest ih =>
      obtain ⟨d, hd, h⟩ := Option.bind_eq_some_iff.mp h
      obtain ⟨later, hlater, h⟩ := Option.bind_eq_some_iff.mp h
      cases h
      exact .apart hd (ih hlater)
    | case4 c rest _ _ ih =>
      obtain ⟨d, hd, h⟩ := Option.bind_eq_some_iff.mp h
      obtain ⟨later, hlater, h⟩ := Option.bind_eq_some_iff.mp h
      cases h
      exact .next hd (ih hlater)
  · intro h
    induction h with
    | last h => rw [digits?, h]; rfl
    | @next c d cs ds h hrest ih =>
      obtain ⟨c', rest, d', rfl, hc'⟩ := hrest.exists_cons
      have hne : c' ≠ '_' := by
        rintro rfl
        cases hc'
      rw [digits?, h, ih]
      · rfl
      · simp
      · rintro _ he
        exact hne (List.cons.inj he).1
    | apart h _ ih => rw [digits?, h, ih]; rfl

theorem ofDigits_eq (ds : List Nat) : ofDigits ds = Nat.ofDigits 10 ds.reverse := by
  rw [Nat.ofDigits_eq_foldr, List.foldr_reverse, ofDigits]
  congr
  funext n d
  exact Nat.add_comm _ _

theorem unsigned?_eq_some_iff {n : Nat} : unsigned? cs = some n ↔ Unsigned cs n := by
  unfold unsigned?
  constructor
  · intro h
    obtain ⟨ds, hds, h⟩ := Option.bind_eq_some_iff.mp h
    obtain ⟨hlen, hn⟩ := Option.ite_none_right_eq_some.mp h
    exact ⟨ds, digits?_eq_some_iff.mp hds, hlen, ofDigits_eq ds ▸ Option.some.inj hn⟩
  · rintro ⟨ds, hds, hlen, rfl⟩
    rw [digits?_eq_some_iff.mpr hds, ← ofDigits_eq]
    exact if_pos hlen

theorem signed?_of_unsigned {n : Nat} (h : Unsigned cs n) :
    signed? cs = (unsigned? cs).map Int.ofNat := by
  obtain ⟨ds, hds, -⟩ := h
  obtain ⟨c, rest, d, rfl, hc⟩ := hds.exists_cons
  unfold signed?
  split
  · rename_i he
    cases (List.cons.inj he).1
    cases hc
  · rename_i he
    cases (List.cons.inj he).1
    cases hc
  · rfl

theorem signed?_eq_some_iff {v : Int} : signed? cs = some v ↔ Signed cs v := by
  constructor
  · intro h
    unfold signed? at h
    split at h
    all_goals
      obtain ⟨n, hn, rfl⟩ := Option.map_eq_some_iff.mp h
      have hn := unsigned?_eq_some_iff.mp hn
    · exact .plus hn
    · exact .minus hn
    · exact .bare hn
  · intro h
    cases h with
    | bare h =>
      rw [signed?_of_unsigned h, unsigned?_eq_some_iff.mpr h]
      rfl
    | plus h | minus h =>
      rw [signed?, unsigned?_eq_some_iff.mpr h]
      rfl

end Digits

section Trim

variable {cs before body after : List Char}

theorem exists_trim (cs : List Char) :
    ∃ before after, cs = before ++ trim cs ++ after ∧ (∀ c ∈ before, isRoom c = true) ∧
      ∀ c ∈ after, isRoom c = true := by
  have hback := List.takeWhile_append_dropWhile (p := isRoom) (l := (cs.dropWhile isRoom).reverse)
  have hfront := List.takeWhile_append_dropWhile (p := isRoom) (l := cs)
  refine ⟨cs.takeWhile isRoom, ((cs.dropWhile isRoom).reverse.takeWhile isRoom).reverse, ?_, ?_, ?_⟩
  · rw [trim, List.append_assoc, ← List.reverse_append, hback, List.reverse_reverse, hfront]
  · exact fun c => List.mem_takeWhile_imp
  · exact fun c hc => List.mem_takeWhile_imp (List.mem_reverse.mp hc)

theorem dropWhile_append_of_room (h : ∀ c ∈ before, isRoom c = true)
    (hbody : ∃ c rest, body = c :: rest ∧ isRoom c = false) :
    (before ++ body).dropWhile isRoom = body := by
  obtain ⟨c, rest, rfl, hc⟩ := hbody
  rw [List.dropWhile_append_of_pos h, List.dropWhile_cons_of_neg (by simp [hc])]

theorem trim_append (hbefore : ∀ c ∈ before, isRoom c = true)
    (hafter : ∀ c ∈ after, isRoom c = true)
    (hfirst : ∃ c rest, body = c :: rest ∧ isRoom c = false)
    (hlast : ∃ front c, body = front ++ [c] ∧ isRoom c = false) :
    trim (before ++ body ++ after) = body := by
  have hback : ∃ c rest, body.reverse = c :: rest ∧ isRoom c = false := by
    obtain ⟨front, c, rfl, hc⟩ := hlast
    exact ⟨c, front.reverse, by simp, hc⟩
  have hfront : ∃ c rest, body ++ after = c :: rest ∧ isRoom c = false := by
    obtain ⟨c, rest, rfl, hc⟩ := hfirst
    exact ⟨c, rest ++ after, rfl, hc⟩
  rw [trim, List.append_assoc, dropWhile_append_of_room hbefore hfront, List.reverse_append,
    dropWhile_append_of_room (fun c hc => hafter c (List.mem_reverse.mp hc)) hback,
    List.reverse_reverse]

theorem isRoom_of_digit? {c : Char} {d : Nat} (h : digit? c = some d) : isRoom c = false := by
  rw [isRoom, isBlank_of_digit? h, Bool.false_and]

theorem Signed.trim_append {v : Int} (h : Signed body v) (hbefore : ∀ c ∈ before, isRoom c = true)
    (hafter : ∀ c ∈ after, isRoom c = true) : trim (before ++ body ++ after) = body := by
  cases h with
  | bare h =>
    obtain ⟨ds, hds, -⟩ := h
    obtain ⟨c, rest, d, hcons, hc⟩ := hds.exists_cons
    obtain ⟨front, last, d', hconcat, hlast⟩ := hds.exists_concat
    exact Numeral.trim_append hbefore hafter ⟨c, rest, hcons, isRoom_of_digit? hc⟩
      ⟨front, last, hconcat, isRoom_of_digit? hlast⟩
  | plus h | minus h =>
    obtain ⟨ds, hds, -⟩ := h
    obtain ⟨front, last, d', rfl, hlast⟩ := hds.exists_concat
    exact Numeral.trim_append hbefore hafter ⟨_, _, rfl, rfl⟩
      ⟨_ :: front, last, rfl, isRoom_of_digit? hlast⟩

end Trim

end Numeral

open Numeral

/-- The reader follows the grammar. -/
theorem int?_eq_some_iff {text : String} {v : Int} :
    int? text = some v ↔ Spells isRoom text v := by
  constructor
  · intro h
    obtain ⟨before, after, htext, hbefore, hafter⟩ := exists_trim text.toList
    exact ⟨before, _, after, htext, hbefore, signed?_eq_some_iff.mp h, hafter⟩
  · rintro ⟨before, body, after, htext, hbefore, hbody, hafter⟩
    rw [int?, htext, hbody.trim_append hbefore hafter]
    exact signed?_eq_some_iff.mpr hbody

theorem int?_eq_none_iff {text : String} :
    int? text = none ↔ ∀ v, ¬ Spells isRoom text v := by
  rw [Option.eq_none_iff_forall_ne_some]
  exact forall_congr' fun v => not_congr int?_eq_some_iff

/-- The separators of a text's levels are not room, and an underscore stands only between digits. -/
example : int? " -1_0\t" = some (-10) := by decide

example : int? "\x1c10" = none ∧ int? "_10" = none := by decide

section Shortest

namespace Numeral

theorem digits_of_isDigit {cs : List Char} (hne : cs ≠ []) (h : ∀ c ∈ cs, c.isDigit = true) :
    Digits cs (cs.map fun c => c.toNat - '0'.toNat) := by
  induction cs with
  | nil => exact absurd rfl hne
  | cons c cs ih =>
    have hc := digit?_of_isDigit (h c List.mem_cons_self)
    cases cs with
    | nil => exact .last hc
    | cons c' cs =>
      have hrest := ih (List.cons_ne_nil c' cs) fun d hd => h d (List.mem_cons_of_mem c hd)
      exact .next hc hrest

theorem unsigned_toDigits {n : Nat} (h : n < 10 ^ 4300) :
    Unsigned (Nat.toDigits 10 n) n := by
  refine ⟨_, digits_of_isDigit Nat.toDigits_ne_nil fun c => ?_, ?_, ?_⟩
  · exact Nat.isDigit_of_mem_toDigits (by decide) (by decide)
  · rw [List.length_map]
    exact Nat.toDigits_length 10 n 4300 (by decide) h
  · rw [← ofDigits_eq, ofDigits, List.foldl_map, ← Nat.ofDigitChars_eq_foldl]
    exact Nat.ofDigitChars_toDigits (by decide) (by decide)

end Numeral

theorem toList_toString (n : Int) :
    (toString n).toList =
      (if 0 ≤ n then [] else ['-']) ++ Nat.toDigits 10 n.natAbs := by
  rw [Int.toString_eq_repr, Int.repr_eq_if]
  by_cases hn : 0 ≤ n
  · have habs : n.toNat = n.natAbs := by omega
    rw [if_pos hn, if_pos hn, Nat.toList_repr, habs, List.nil_append]
  · have habs : (-n).toNat = n.natAbs := by omega
    rw [if_neg hn, if_neg hn, String.toList_append, Nat.toList_repr, habs]
    rfl

/-- The shortest spelling of a number is a numeral of it. -/
theorem int?_toString {n : Int} (h : n.natAbs < 10 ^ 4300) : int? (toString n) = some n := by
  have hdigits := unsigned_toDigits h
  refine int?_eq_some_iff.mpr ⟨[], (toString n).toList, [], by simp, by simp, ?_, by simp⟩
  rw [toList_toString]
  by_cases hn : 0 ≤ n
  · rw [if_pos hn, List.nil_append]
    have hsigned := Signed.bare hdigits
    rwa [Int.natAbs_of_nonneg hn] at hsigned
  · rw [if_neg hn, List.singleton_append]
    have hsigned := Signed.minus hdigits
    rwa [show -(n.natAbs : Int) = n by omega] at hsigned

end Shortest

end ShellLine.Text
