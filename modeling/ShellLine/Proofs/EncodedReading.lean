import ShellLine.Proofs.DisplayText
import ShellLine.Proofs.ItemReading

/-!
# What an encoded text reads as

Every token read from an encoded text is a run of one operator, or it has no newline, begins no
comment, and has its operators behind call marks. For an encoded text has no quotes, and its escapes
stand before blanks and escapes only: nothing else gets into a word that does not belong there.
-/

namespace ShellLine.Display

open Item

variable {p : Profile}

/-- Copies of one operator. -/
def IsRun (part : List Char) : Prop :=
  ∃ c n, isOperator c = true ∧ 1 ≤ n ∧ part = List.replicate n c

/-- No newline and no operator breaks the word off; `previous` is the character before it. -/
def Unbroken (previous : Option Char) (part : List Char) : Prop :=
  '\n' ∉ part ∧
    ∀ before c after, part = before ++ c :: after → isOperator c = true →
      isParen c = true ∧ (before.getLast?.or previous).any isCallMark = true

theorem unbroken_nil (previous : Option Char) : Unbroken previous [] := by
  simp [Unbroken]

theorem unbroken_cons {previous : Option Char} {c : Char} {part : List Char} :
    Unbroken previous (c :: part) ↔
      (c ≠ '\n' ∧ (isOperator c = true → isParen c = true ∧ previous.any isCallMark = true)) ∧
        Unbroken (some c) part := by
  constructor
  · rintro ⟨hnl, hall⟩
    simp only [List.mem_cons, not_or] at hnl
    refine ⟨⟨Ne.symm hnl.1, hall [] c part rfl⟩, hnl.2, ?_⟩
    intro before d after he hd
    have := hall (c :: before) d after (by rw [he]; rfl) hd
    cases hl : before.getLast? <;> simp_all [List.getLast?_cons]
  · rintro ⟨⟨hc, hop⟩, hnl, hall⟩
    refine ⟨by simp [Ne.symm hc, hnl], ?_⟩
    intro before d after he hd
    cases before with
    | nil =>
      obtain ⟨rfl, rfl⟩ := List.cons.inj he
      exact hop hd
    | cons b before =>
      obtain ⟨rfl, he'⟩ := List.cons.inj he
      have := hall before d after he' hd
      cases hl : before.getLast? <;> simp_all [List.getLast?_cons]

/-- A word that is read back as one token. -/
def ReadsBack (p : Profile) (part : List Char) : Prop :=
  part ≠ [] ∧ (IsRun part ∨ (Unbroken none part ∧ ∀ c ∈ p.comment, part.head? ≠ some c))

theorem ne_newline_of_not_isBlank {c : Char} (h : Text.isBlank c = false) : c ≠ '\n' := by
  rintro rfl
  cases h

theorem not_isOperator_of_unit (hp : p.Regular) {c : Char}
    (hc : c = p.escape ∨ c = ' ' ∨ c = '\t') : c ≠ '\n' ∧ isOperator c = false := by
  rcases hc with rfl | rfl | rfl
  · exact ⟨hp.escape_ne_newline, hp.escape_operator⟩
  · exact ⟨by decide, by decide⟩
  · exact ⟨by decide, by decide⟩

theorem word_encoded (hp : p.Regular) (previous : Char) {cs : List Char} (h : Encoded p cs) :
    ∃ w, word p previous cs = .ok w ∧ Encoded p w.rest ∧ Unbroken (some previous) w.text := by
  induction h generalizing previous with
  | nil => exact ⟨{ rest := [] }, rfl, .nil, unbroken_nil _⟩
  | @plain c rest hc hq h ih =>
    obtain ⟨w, hw, hrest, htext⟩ := ih c
    cases hrole : p.role c with
    | escape => exact absurd hrole (Profile.role_ne_escape hc)
    | comment =>
      obtain ⟨-, -, hblank, hop⟩ := hp.comment c (Profile.role_fits hrole)
      refine ⟨w.prepend [c] false, by rw [word_comment hrole, hw]; rfl, hrest, ?_⟩
      exact unbroken_cons.mpr ⟨⟨ne_newline_of_not_isBlank hblank, by simp [hop]⟩, htext⟩
    | quote q => exact absurd hrole (Profile.role_ne_quote hq q)
    | operator =>
      have hop : isOperator c = true := Profile.role_fits hrole
      by_cases hcall : (isParen c && isCallMark previous) = true
      · refine ⟨w.prepend [c] _, by rw [word_operator hrole, if_pos hcall, hw]; rfl, hrest, ?_⟩
        refine unbroken_cons.mpr ⟨⟨?_, fun _ => by simpa using hcall⟩, htext⟩
        rintro rfl
        cases hop
      · exact ⟨{ rest := c :: rest }, by rw [word_operator hrole, if_neg hcall],
          .plain hc hq h, unbroken_nil _⟩
    | newline =>
      exact ⟨{ rest }, word_separator (.inl hrole) previous rest, h, unbroken_nil _⟩
    | blank => exact ⟨{ rest }, word_separator (.inr hrole) previous rest, h, unbroken_nil _⟩
    | plain =>
      obtain ⟨hop, hsep⟩ : isOperator c = false ∧ isSeparator c = false := Profile.role_fits hrole
      refine ⟨w.prepend [c] _, by rw [word_plain hrole, hw]; rfl, hrest, ?_⟩
      refine unbroken_cons.mpr ⟨⟨?_, by simp [hop]⟩, htext⟩
      rintro rfl
      cases hsep
  | @pair c rest hc h ih =>
    obtain ⟨w, hw, hrest, htext⟩ := ih c
    obtain ⟨hnl, hop⟩ := not_isOperator_of_unit hp hc
    refine ⟨w.prepend [c] false, ?_, hrest, unbroken_cons.mpr ⟨⟨hnl, by simp [hop]⟩, htext⟩⟩
    rw [word_pair, hw, escaped, if_neg hnl]
    rfl

theorem isRun_cons_takeWhile {c : Char} (hc : isOperator c = true) (rest : List Char) :
    IsRun (c :: rest.takeWhile (· = c)) := by
  refine ⟨c, (rest.takeWhile (· = c)).length + 1, hc, by omega, ?_⟩
  rw [List.replicate_succ]
  congr 1
  refine List.eq_replicate_iff.mpr ⟨rfl, fun d hd => ?_⟩
  have := List.all_takeWhile (p := (· = c)) (l := rest)
  simpa using List.all_eq_true.mp this d hd

/-- What is read off the front of an encoded text reads back, and the rest is encoded too. -/
theorem read_encoded (hp : p.Regular) {c : Char} {rest : List Char} (h : Encoded p (c :: rest)) :
    ∃ item, read p c rest = .ok item ∧ Encoded p item.rest ∧
      ∀ part ∈ item.token, ReadsBack p part := by
  cases h with
  | plain hc hq h =>
    cases hrole : p.role c with
    | escape => exact absurd hrole (Profile.role_ne_escape hc)
    | comment =>
      refine ⟨_, read_comment hrole rest, h.dropWhile fun _ d hd => ?_, by simp⟩
      simpa using (not_isOperator_of_unit hp hd).1
    | quote q => exact absurd hrole (Profile.role_ne_quote hq q)
    | operator =>
      have hop : isOperator c = true := Profile.role_fits hrole
      refine ⟨_, read_operator hrole rest, h.dropWhile fun he => ?_, ?_⟩
      · exact absurd (by simpa using he) hc.symm
      · rintro part ⟨⟩
        exact ⟨List.cons_ne_nil _ _, .inl (isRun_cons_takeWhile hop rest)⟩
    | newline => exact ⟨_, read_newline hrole rest, h, by simp⟩
    | blank => exact ⟨_, read_blank hrole rest, h, by simp⟩
    | plain =>
      obtain ⟨hop, hsep⟩ : isOperator c = false ∧ isSeparator c = false := Profile.role_fits hrole
      obtain ⟨w, hw, hrest, htext⟩ := word_encoded hp c h
      refine ⟨_, by rw [read_plain hrole, hw]; rfl, hrest, ?_⟩
      rintro part ⟨⟩
      refine ⟨List.cons_ne_nil _ _, .inr ⟨unbroken_cons.mpr ⟨⟨?_, by simp [hop]⟩, htext⟩, ?_⟩⟩
      · rintro rfl
        cases hsep
      · intro k hk he
        obtain rfl : c = k := by simpa [Word.prepend] using he
        rw [hp.role_comment hk] at hrole
        cases hrole
  | @pair d rest hd h =>
    obtain ⟨hnl, hop⟩ := not_isOperator_of_unit hp hd
    obtain ⟨w, hw, hrest, htext⟩ := word_encoded hp d h
    refine ⟨_, by rw [read_pair hnl, hw]; rfl, hrest, ?_⟩
    rintro part ⟨⟩
    refine ⟨List.cons_ne_nil _ _, .inr ⟨unbroken_cons.mpr ⟨⟨hnl, by simp [hop]⟩, htext⟩, ?_⟩⟩
    intro k hk he
    obtain rfl : d = k := by simpa [Word.prepend] using he
    obtain ⟨hne, -, hblank, -⟩ := hp.comment d hk
    rcases hd with rfl | rfl | rfl
    · exact hne rfl
    · cases hblank
    · cases hblank

theorem reading_encoded (hp : p.Regular) {cs : List Char} (h : Encoded p cs) :
    ∃ words flagged, p.reading cs = .ok (words, flagged) ∧ ∀ part ∈ words, ReadsBack p part := by
  induction cs using reading_induction (p := p) with
  | nil => exact ⟨[], false, reading_nil, by simp⟩
  | unclosed c rest e he =>
    obtain ⟨item, hi, -⟩ := read_encoded hp h
    rw [hi] at he
    cases he
  | item c rest item hi ih =>
    obtain ⟨item', hi', hrest, hpart⟩ := read_encoded hp h
    obtain rfl : item = item' := by simpa [hi] using hi'
    obtain ⟨words, flagged, hr, hwords⟩ := ih hrest
    refine ⟨item.token.toList ++ words, item.flagged || flagged, ?_, ?_⟩
    · rw [reading_cons hi, hr]
      rfl
    · intro part hmem
      rcases List.mem_append.mp hmem with hmem | hmem
      · exact hpart part (by simpa using hmem)
      · exact hwords part hmem

end ShellLine.Display
