import ShellLine.Scan
import ShellLine.Text.Blank

/-!
# What the characters of a profile do

Outside quotes, and where no comment, escape or operator reaches over to it, a character has one
role. The roles are asked for in the order in which a scan does. A profile whose escape and comment
characters are no quotes never takes a quote for something else; in a regular one they have nothing
in common with blanks and operators either.
-/

namespace ShellLine

/-- What a character does where no word has begun. -/
inductive Role where
  | escape
  | comment
  | quote (q : Quote)
  | operator
  | newline
  | blank
  | plain
deriving DecidableEq, Repr

/-- What a role says of the character that has it. -/
def Role.Fits (p : Profile) (c : Char) : Role → Prop
  | .escape => c = p.escape
  | .comment => p.comment = some c
  | .quote q => c = q.char
  | .operator => isOperator c = true
  | .newline => c = '\n'
  | .blank => c = ' ' ∨ c = '\t'
  | .plain => isOperator c = false ∧ isSeparator c = false

namespace Profile

def role (p : Profile) (c : Char) : Role :=
  if c = p.escape then .escape
  else if p.comment = some c then .comment
  else match Quote.ofChar? c with
    | some q => .quote q
    | none =>
      if isOperator c then .operator
      else if c = '\n' then .newline
      else if c = ' ' ∨ c = '\t' then .blank
      else .plain

theorem role_fits {p : Profile} {c : Char} {r : Role} (h : p.role c = r) : r.Fits p c := by
  subst h
  fun_cases role p c with
  | case1 h => exact h
  | case2 _ h => exact h
  | case3 _ _ q h => exact Quote.ofChar?_eq_some.mp h
  | case4 _ _ _ h => exact h
  | case5 _ _ _ _ h => exact h
  | case6 _ _ _ _ _ h => exact h
  | case7 _ _ _ hop hnl hbl =>
    exact ⟨by simpa using hop, by simpa [isSeparator, hnl] using hbl⟩

theorem role_ne_escape {p : Profile} {c : Char} (h : c ≠ p.escape) : p.role c ≠ .escape :=
  fun hrole => h (role_fits hrole)

theorem role_ne_quote {p : Profile} {c : Char} (h : Quote.ofChar? c = none) (q : Quote) :
    p.role c ≠ .quote q := by
  intro hrole
  have hc : c = q.char := role_fits hrole
  rw [Quote.ofChar?_eq_some.mpr hc] at h
  cases h

/-- Between single quotes no character escapes another. -/
def escapesIn (p : Profile) (q : Quote) (c : Char) : Bool :=
  q == .double && c == p.escape

/-- Neither the escape character nor the comment character is a quote. -/
structure SparesQuotes (p : Profile) : Prop where
  escape_ne : ∀ q : Quote, q.char ≠ p.escape
  comment_ne : ∀ q : Quote, p.comment ≠ some q.char

theorem SparesQuotes.ofChar?_of_comment {p : Profile} (hp : p.SparesQuotes) {c : Char}
    (hc : p.comment = some c) : Quote.ofChar? c = none :=
  Option.eq_none_iff_forall_not_mem.mpr fun q hq =>
    hp.comment_ne q (Quote.ofChar?_eq_some.mp hq ▸ hc)

/-- The characters with a part to play are told apart, and none of them leaves room. -/
structure Regular (p : Profile) : Prop where
  escape_quote : Quote.ofChar? p.escape = none
  escape_blank : Text.isBlank p.escape = false
  escape_operator : isOperator p.escape = false
  comment : ∀ c ∈ p.comment, c ≠ p.escape ∧ Quote.ofChar? c = none ∧ Text.isBlank c = false ∧
    isOperator c = false
  shellOnly : ∀ c ∈ p.shellOnly, c ≠ p.escape ∧ p.comment ≠ some c ∧ Text.isBlank c = false

theorem stock_regular (onWindows : Bool) : (stock onWindows).Regular := by
  have hcomment : ∀ c ∈ posix.comment, c ≠ posix.escape ∧ Quote.ofChar? c = none ∧
      Text.isBlank c = false ∧ isOperator c = false := by
    rintro c ⟨⟩
    exact ⟨by decide, rfl, rfl, rfl⟩
  cases onWindows with
  | false =>
    refine ⟨rfl, rfl, rfl, hcomment, ?_⟩
    simp only [stock, posix, Bool.false_eq_true, if_false, List.forall_mem_cons]
    exact ⟨by decide, by decide, by decide, by decide, by decide, by decide, nofun⟩
  | true =>
    refine ⟨rfl, rfl, rfl, nofun, ?_⟩
    simp only [stock, windows, if_true, List.forall_mem_cons]
    exact ⟨by decide, by decide, by decide, nofun⟩

namespace Regular

variable {p : Profile} (hp : p.Regular)
include hp

theorem sparesQuotes : p.SparesQuotes where
  escape_ne q h := by
    have hq := hp.escape_quote
    rw [← h, Quote.ofChar?_eq_some.mpr rfl] at hq
    cases hq
  comment_ne q h := by
    have hq := (hp.comment _ h).2.1
    rw [Quote.ofChar?_eq_some.mpr rfl] at hq
    cases hq

theorem ne_escape {c : Char} (hc : Text.isBlank c = true) : c ≠ p.escape := by
  rintro rfl
  rw [hp.escape_blank] at hc
  cases hc

theorem escape_ne_newline : p.escape ≠ '\n' :=
  (hp.ne_escape Text.isBlank_newline).symm

theorem role_comment {c : Char} (hc : p.comment = some c) : p.role c = .comment := by
  simp [role, (hp.comment c hc).1, hc]

theorem role_operator {c : Char} (hc : isOperator c = true) : p.role c = .operator := by
  have hesc : c ≠ p.escape := by
    rintro rfl
    rw [hp.escape_operator] at hc
    cases hc
  have hcom : p.comment ≠ some c := fun h => by
    rw [(hp.comment c h).2.2.2] at hc
    cases hc
  have hquote : Quote.ofChar? c = none := by
    simp only [isOperator, operators, List.contains_cons] at hc
    simp only [Quote.ofChar?]
    grind
  simp [role, hesc, hcom, hquote, hc]

theorem role_quote (q : Quote) : p.role q.char = .quote q := by
  simp [role, hp.sparesQuotes.escape_ne q, hp.sparesQuotes.comment_ne q,
    Quote.ofChar?_eq_some.mpr rfl]

theorem role_newline : p.role '\n' = .newline := by
  have hcom : p.comment ≠ some '\n' := fun h => by
    cases (hp.comment _ h).2.2.1
  simp [role, hp.ne_escape Text.isBlank_newline, hcom, Quote.ofChar?, isOperator, operators]

theorem role_separator {c : Char} (hc : c = ' ' ∨ c = '\t') : p.role c = .blank := by
  have hblank : Text.isBlank c = true := by rcases hc with rfl | rfl <;> rfl
  have hcom : p.comment ≠ some c := fun h => by
    rw [(hp.comment c h).2.2.1] at hblank
    cases hblank
  rcases hc with rfl | rfl <;>
    simp [role, hp.ne_escape hblank, hcom, Quote.ofChar?, isOperator, operators]

end Regular

end Profile

theorem isSeparator_of_isOperator {c : Char} (h : isOperator c = true) : isSeparator c = false := by
  simp only [isOperator, operators, List.contains_cons] at h
  simp only [isSeparator]
  grind

theorem isCallMark_of_isOperator {c : Char} (h : isOperator c = true) : isCallMark c = false := by
  simp only [isOperator, operators, List.contains_cons] at h
  simp only [isCallMark]
  grind

end ShellLine
