import ShellLine.Display
import ShellLine.Proofs.Items

/-!
# The text of displayed words

Under an escape character that is no blank, the three passes of an escaped word come to one: every
character is written as a unit of its own, alone or behind the escape character. A text of such
units has no quotes and no escaped newline. `Encoded` is this shape of text; it is kept by whatever
is read off its front.
-/

namespace ShellLine

namespace Display

/-- How one character of a word is written. -/
def unit (mark c : Char) : List Char :=
  if c = mark ∨ c = ' ' ∨ c = '\t' then [mark, c] else [c]

theorem guarded_append (mark target : Char) (cs ds : List Char) :
    guarded mark target (cs ++ ds) = guarded mark target cs ++ guarded mark target ds :=
  List.flatMap_append

theorem escapeChars_append (mark : Char) (cs ds : List Char) :
    escapeChars mark (cs ++ ds) = escapeChars mark cs ++ escapeChars mark ds := by
  simp only [escapeChars, guarded_append]

theorem escapeChars_singleton {mark : Char} (hs : mark ≠ ' ') (ht : mark ≠ '\t') (c : Char) :
    escapeChars mark [c] = unit mark c := by
  by_cases hm : c = mark
  · simp [escapeChars, guarded, unit, hm, hs, ht]
  by_cases hcs : c = ' '
  · simp [escapeChars, guarded, unit, hcs, ht, hs.symm]
  · by_cases hct : c = '\t'
    · simp [escapeChars, guarded, unit, hct, ht.symm]
    · simp [escapeChars, guarded, unit, hm, hcs, hct]

theorem escapeChars_eq_flatMap {mark : Char} (hs : mark ≠ ' ') (ht : mark ≠ '\t')
    (cs : List Char) : escapeChars mark cs = cs.flatMap (unit mark) := by
  induction cs with
  | nil => rfl
  | cons c cs ih =>
    rw [← List.singleton_append, escapeChars_append, escapeChars_singleton hs ht, ih]
    rfl

/-- Words in units, with a space between them. -/
def text (mark : Char) (parts : List (List Char)) : List Char :=
  [' '].intercalate (parts.map (List.flatMap (unit mark)))

/-- The end of the text, or the space before the next word. -/
def Ends (tail : List Char) : Prop :=
  tail = [] ∨ ∃ rest, tail = ' ' :: rest

theorem text_cons (mark : Char) (part : List Char) (parts : List (List Char)) :
    ∃ tail, Ends tail ∧ tail.tail = text mark parts ∧
      text mark (part :: parts) = part.flatMap (unit mark) ++ tail := by
  cases parts with
  | nil => exact ⟨[], .inl rfl, rfl, by simp [text]⟩
  | cons next parts =>
    exact ⟨' ' :: text mark (next :: parts), .inr ⟨_, rfl⟩, rfl, by simp [text]⟩

theorem toList_line_of_not_blank {p : Profile} (hs : p.escape ≠ ' ') (ht : p.escape ≠ '\t')
    (program : String) (args : List String) :
    (line p program args).toList = text p.escape ((words program args).map String.toList) := by
  have hescape : ∀ w ∈ words program args,
      (String.toList ∘ escape p) w = (List.flatMap (unit p.escape) ∘ String.toList) w := by
    intro w _
    simp [escape, escapeChars_eq_flatMap hs ht]
  have hsep : " ".toList = [' '] := rfl
  rw [line, String.toList_intercalate, text, hsep, List.map_map, List.map_map,
    List.map_congr_left hescape]

theorem toList_line {p : Profile} (hp : p.Regular) (program : String) (args : List String) :
    (line p program args).toList = text p.escape ((words program args).map String.toList) :=
  toList_line_of_not_blank (hp.ne_escape Text.isBlank_space).symm
    (hp.ne_escape Text.isBlank_tab).symm program args

/-- A text of units and separators without quotes. -/
inductive Encoded (p : Profile) : List Char → Prop
  | nil : Encoded p []
  | plain {c : Char} {rest : List Char} (hc : c ≠ p.escape) (hq : Quote.ofChar? c = none)
      (h : Encoded p rest) : Encoded p (c :: rest)
  | pair {c : Char} {rest : List Char} (hc : c = p.escape ∨ c = ' ' ∨ c = '\t')
      (h : Encoded p rest) : Encoded p (p.escape :: c :: rest)

variable {p : Profile}

theorem Encoded.append {cs ds : List Char} (hc : Encoded p cs) (hd : Encoded p ds) :
    Encoded p (cs ++ ds) := by
  induction hc with
  | nil => exact hd
  | plain hc hq _ ih => exact .plain hc hq ih
  | pair hc _ ih => exact .pair hc ih

theorem encoded_part {part : List Char} (hq : ∀ c ∈ part, Quote.ofChar? c = none) :
    Encoded p (part.flatMap (unit p.escape)) := by
  induction part with
  | nil => exact .nil
  | cons c part ih =>
    rw [List.flatMap_cons]
    apply Encoded.append _ (ih fun d hd => hq d (List.mem_cons_of_mem c hd))
    by_cases hc : c = p.escape ∨ c = ' ' ∨ c = '\t'
    · rw [unit, if_pos hc]
      exact .pair hc .nil
    · rw [unit, if_neg hc]
      exact .plain (fun h => hc (.inl h)) (hq c List.mem_cons_self) .nil

theorem encoded_text (hp : p.Regular) {parts : List (List Char)}
    (hq : ∀ part ∈ parts, ∀ c ∈ part, Quote.ofChar? c = none) :
    Encoded p (text p.escape parts) := by
  induction parts with
  | nil => exact .nil
  | cons part parts ih =>
    have hpart := encoded_part (p := p) (hq part List.mem_cons_self)
    have hrest := ih fun part' h => hq part' (List.mem_cons_of_mem part h)
    obtain ⟨tail, ht, htail, htext⟩ := text_cons p.escape part parts
    rw [htext]
    apply hpart.append
    rcases ht with rfl | ⟨rest, rfl⟩
    · exact .nil
    · rw [← htail] at hrest
      exact .plain (hp.ne_escape Text.isBlank_space) rfl hrest

/-- Dropping does not stop between an escape character and the character behind it. -/
theorem Encoded.dropWhile {f : Char → Bool} {cs : List Char} (h : Encoded p cs)
    (hf : f p.escape = true → ∀ c, c = p.escape ∨ c = ' ' ∨ c = '\t' → f c = true) :
    Encoded p (cs.dropWhile f) := by
  induction h with
  | nil => exact .nil
  | @plain c rest hc hq h ih =>
    by_cases hfc : f c = true
    · rw [List.dropWhile_cons_of_pos hfc]
      exact ih
    · rw [List.dropWhile_cons_of_neg hfc]
      exact .plain hc hq h
  | @pair c rest hc h ih =>
    by_cases hfe : f p.escape = true
    · rw [List.dropWhile_cons_of_pos hfe, List.dropWhile_cons_of_pos (hf hfe c hc)]
      exact ih
    · rw [List.dropWhile_cons_of_neg hfe]
      exact .pair hc h

end Display

end ShellLine
