import ShellLine.Proofs.DisplayText

/-!
# Words recovered from a display

A display loses nothing. Behind an escape character the next character stands for itself, and a
space that is not escaped ends a word; so the words can be cut out of a displayed line again,
whatever characters they have and however many of them are empty. Hence two lines of words are
displayed alike only if they are the same words. Under a blank as escape character this fails, since
an escape then looks like a separator.
-/

namespace ShellLine.Display

/-- Puts a character before the first word. -/
def extend (c : Char) : List (List Char) → List (List Char)
  | [] => [[c]]
  | word :: words => (c :: word) :: words

/-- The words that a text displays, read with an escape pending or not. -/
def cut (mark : Char) : Bool → List Char → List (List Char)
  | _, [] => [[]]
  | true, c :: rest => extend c (cut mark false rest)
  | false, c :: rest =>
    if c = mark then cut mark true rest
    else if c = ' ' then [] :: cut mark false rest
    else extend c (cut mark false rest)

variable {mark : Char}

theorem cut_unit (c : Char) (rest : List Char) :
    cut mark false (unit mark c ++ rest) = extend c (cut mark false rest) := by
  by_cases hc : c = mark ∨ c = ' ' ∨ c = '\t'
  · rw [unit, if_pos hc, List.cons_append, List.singleton_append, cut, if_pos rfl, cut]
  · rw [unit, if_neg hc, List.singleton_append]
    rw [not_or, not_or] at hc
    rw [cut, if_neg hc.1, if_neg hc.2.1]

theorem cut_part {part tail : List Char} {words : List (List Char)}
    (h : cut mark false tail = [] :: words) :
    cut mark false (part.flatMap (unit mark) ++ tail) = part :: words := by
  induction part with
  | nil => exact h
  | cons c part ih =>
    rw [List.flatMap_cons, List.append_assoc, cut_unit, ih]
    rfl

theorem cut_separator (hs : mark ≠ ' ') (rest : List Char) :
    cut mark false (' ' :: rest) = [] :: cut mark false rest := by
  rw [cut, if_neg hs.symm, if_pos rfl]

theorem cut_text (hs : mark ≠ ' ') (part : List Char) (parts : List (List Char)) :
    cut mark false (text mark (part :: parts)) = part :: parts := by
  induction parts generalizing part with
  | nil =>
    have hend : cut mark false [] = [[]] := rfl
    have hpart : cut mark false (part.flatMap (unit mark) ++ []) = [part] := cut_part hend
    simpa [text] using hpart
  | cons next parts ih =>
    have hnext : cut mark false (' ' :: text mark (next :: parts)) = [] :: next :: parts := by
      rw [cut_separator hs, ih]
    have htext : text mark (part :: next :: parts) =
        part.flatMap (unit mark) ++ ' ' :: text mark (next :: parts) := by
      simp [text]
    rw [htext]
    exact cut_part hnext

section Line

variable {p : Profile} {program program' : String}

/-- What is cut out of a displayed line are its words. -/
theorem cut_line (hs : p.escape ≠ ' ') (ht : p.escape ≠ '\t') (hne : program ≠ "")
    (args : List String) :
    (cut p.escape false (line p program args).toList).map String.ofList = program :: args := by
  have hid : (program :: args).map (String.ofList ∘ String.toList) = program :: args := by
    simp [Function.comp_def]
  rw [toList_line_of_not_blank hs ht, words, if_neg hne, List.map_cons, cut_text hs,
    ← List.map_cons, List.map_map, hid]

/-- Lines are displayed alike only if they are of the same words; and the passes of an escaped text
come to one, which writes every character for itself. -/
theorem line_eq_line_iff (hs : p.escape ≠ ' ') (ht : p.escape ≠ '\t') (hne : program ≠ "")
    (hne' : program' ≠ "") (args args' : List String) :
    (line p program args = line p program' args' ↔ program = program' ∧ args = args') ∧
      ∀ text : String,
        escape p text = String.ofList (text.toList.flatMap (unit p.escape)) := by
  refine ⟨⟨?_, ?_⟩, ?_⟩
  · intro h
    have hwords := cut_line hs ht hne args
    rw [h, cut_line hs ht hne' args'] at hwords
    obtain ⟨hprogram, hargs⟩ := List.cons.inj hwords
    exact ⟨hprogram.symm, hargs.symm⟩
  · rintro ⟨rfl, rfl⟩
    rfl
  · intro text
    rw [escape, escapeChars_eq_flatMap hs ht]

theorem line_eq_line_iff_blank :
    "a b" ≠ "" ∧ "a" ≠ "" ∧
      (line .posix "a b" [""] = line .posix "a" ["b", ""] ↔ "a b" = "a" ∧ [""] = ["b", ""]) ∧
      escape .posix "a b\\" = String.ofList ("a b\\".toList.flatMap (unit '\\')) := by
  have hne : "a b" ≠ "" := by decide
  have hne' : "a" ≠ "" := by decide
  obtain ⟨hline, hescape⟩ :=
    line_eq_line_iff (p := .posix) (by decide) (by decide) hne hne' [""] ["b", ""]
  exact ⟨hne, hne', hline, hescape "a b\\"⟩

/-- With a space as escape character, a space in a word looks like separators. -/
example : line { Profile.posix with escape := ' ' } "a " [] =
    line { Profile.posix with escape := ' ' } "a" ["", "", "", ""] := rfl

end Line

end ShellLine.Display
