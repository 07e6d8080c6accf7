import Mathlib.Data.List.TakeWhile
import ShellLine.Proofs.ScanItems
import ShellLine.Proofs.UnitReading

/-!
# Displayed words read back

A display escapes blanks and its own escape character, and nothing else. So a displayed line reads
back as its words if each of them is a run of one operator, or has no newline, begins no comment and
has its operators behind call marks; and the strip at the front of a line costs a first word that
starts out of sight. These conditions are sharp, since whatever a displayed text reads as meets
them.
-/

namespace ShellLine.Display

open Item

variable {p : Profile}

/-- The first word starts with no blank that a line loses. -/
def StartsInSight (part : List Char) : Prop :=
  ∀ c ∈ part.head?, Text.isBlank c = true → c = ' ' ∨ c = '\t'

theorem dropWhile_text (hp : p.Regular) {part : List Char} {parts : List (List Char)}
    (hne : part ≠ []) (h : StartsInSight part) :
    (text p.escape (part :: parts)).dropWhile Text.isBlank = text p.escape (part :: parts) := by
  obtain ⟨c, part, rfl⟩ := List.exists_cons_of_ne_nil hne
  obtain ⟨tail, -, -, htext⟩ := text_cons p.escape (c :: part) parts
  rw [htext, List.flatMap_cons, List.append_assoc]
  by_cases hc : c = p.escape ∨ c = ' ' ∨ c = '\t'
  · rw [unit, if_pos hc]
    exact List.dropWhile_cons_of_neg (by simp [hp.escape_blank])
  · rw [unit, if_neg hc]
    apply List.dropWhile_cons_of_neg
    intro hblank
    exact hc (.inr (h c rfl hblank))

theorem ReadsBack.newline_not_mem {part : List Char} (h : ReadsBack p part) : '\n' ∉ part := by
  obtain ⟨-, ⟨c, n, hc, -, rfl⟩ | ⟨hword, -⟩⟩ := h
  · intro hmem
    rw [← List.eq_of_mem_replicate hmem] at hc
    cases hc
  · exact hword.1

theorem newline_not_mem_text (hp : p.Regular) {parts : List (List Char)}
    (h : ∀ part ∈ parts, '\n' ∉ part) : '\n' ∉ text p.escape parts := by
  induction parts with
  | nil => simp [text]
  | cons part parts ih =>
    have hrest := ih fun part' hm => h part' (List.mem_cons_of_mem part hm)
    obtain ⟨tail, ht, htail, htext⟩ := text_cons p.escape part parts
    rw [htext, List.mem_append, not_or]
    constructor
    · rw [List.mem_flatMap]
      rintro ⟨c, hc, hmem⟩
      have hne : c ≠ '\n' := fun he => h part List.mem_cons_self (he ▸ hc)
      have hunit : ∀ d ∈ unit p.escape c, d = p.escape ∨ d = c := by
        intro d hd
        unfold unit at hd
        split at hd <;> simp_all
      rcases hunit _ hmem with he | he
      · exact hp.escape_ne_newline he.symm
      · exact hne he.symm
    · rcases ht with rfl | ⟨rest, rfl⟩
      · simp
      · rw [← htail] at hrest
        simpa using hrest

theorem reading_head {c : Char} {rest token part : List Char} {item : Item}
    {words : List (List Char)} {flagged : Bool} (hi : read p c rest = .ok item)
    (ht : item.token = some token)
    (hr : p.reading (c :: rest) = .ok (part :: words, flagged)) : part = token := by
  rw [reading_cons hi, ht] at hr
  cases hrest : p.reading item.rest with
  | error e =>
    rw [hrest] at hr
    cases hr
  | ok r =>
    rw [hrest] at hr
    cases hr
    rfl

/-- On one line, the first token begins with the first character in sight or an escaped one. -/
theorem startsInSight_of_reading (hp : p.Regular) {cs : List Char} (h : Encoded p cs)
    (hsight : ∀ c ∈ cs.head?, Text.isBlank c = false) (hnl : '\n' ∉ cs)
    {part : List Char} {words : List (List Char)} {flagged : Bool}
    (hr : p.reading cs = .ok (part :: words, flagged)) : StartsInSight part := by
  cases h with
  | nil => simp at hr
  | @plain c rest hc hq h =>
    have hblank : Text.isBlank c = false := hsight c rfl
    have hstart (w : List Char) : StartsInSight (c :: w) := by
      rintro d ⟨⟩ hd
      rw [hblank] at hd
      cases hd
    cases hrole : p.role c with
    | escape => exact absurd hrole (Profile.role_ne_escape hc)
    | comment =>
      have hdrop : rest.dropWhile (· ≠ '\n') = [] := by
        have hall : ∀ d ∈ rest, decide (d ≠ '\n') = true := fun d hd => by
          have hne : d ≠ '\n' := fun he => hnl (List.mem_cons_of_mem c (he ▸ hd))
          simpa using hne
        exact List.dropWhile_eq_nil_iff.mpr hall
      rw [reading_cons (read_comment hrole rest), hdrop, reading_nil] at hr
      cases hr
    | quote q => exact absurd hrole (Profile.role_ne_quote hq q)
    | operator =>
      rw [reading_head (read_operator hrole rest) rfl hr]
      exact hstart _
    | newline =>
      have he : c = '\n' := Profile.role_fits hrole
      exact absurd (he ▸ List.mem_cons_self) hnl
    | blank =>
      have he : c = ' ' ∨ c = '\t' := Profile.role_fits hrole
      rcases he with rfl | rfl <;> cases hblank
    | plain =>
      obtain ⟨w, hw, -, -⟩ := word_encoded hp c h
      rw [reading_head (by rw [read_plain hrole, hw]; rfl) rfl hr]
      exact hstart _
  | @pair c rest hc h =>
    obtain ⟨w, hw, -, -⟩ := word_encoded hp c h
    rw [reading_head (by rw [read_pair (not_isOperator_of_unit hp hc).1, hw]; rfl) rfl hr]
    rintro d ⟨⟩ hd
    exact hc.resolve_left (hp.ne_escape hd)

section Line

variable {program : String} {args : List String}

theorem ofChar?_eq_none {parts : List String} {part : List Char}
    (hq : ∀ part ∈ parts, ∀ q : Quote, q.char ∉ part.toList)
    (h : part ∈ parts.map String.toList) : ∀ c ∈ part, Quote.ofChar? c = none := by
  obtain ⟨word, hword, rfl⟩ := List.mem_map.mp h
  intro c hc
  cases hchar : Quote.ofChar? c with
  | none => rfl
  | some q => exact absurd (Quote.ofChar?_eq_some.mp hchar ▸ hc) (hq word hword q)

theorem toList_line_of_ne (hp : p.Regular) (h : program.toList ≠ []) :
    (line p program args).toList = text p.escape ((program :: args).map String.toList) := by
  have hne : program ≠ "" := by
    rintro rfl
    exact h rfl
  rw [toList_line hp, words, if_neg hne]

theorem ofLine_line_of_readsBack (hp : p.Regular)
    (hq : ∀ part ∈ program :: args, ∀ q : Quote, q.char ∉ part.toList)
    (h : ∀ part ∈ program :: args, ReadsBack p part.toList)
    (hs : StartsInSight program.toList) :
    ∃ flagged, Tokens.ofLine p (line p program args) = .ok ⟨program :: args, flagged⟩ ∧
      (flagged = true ↔ ∃ part ∈ program :: args, AsksForShell p part.toList) := by
  have hne := (h program List.mem_cons_self).1
  have hparts : ∀ part ∈ (program :: args).map String.toList, ReadsBack p part := by
    intro part hpart
    obtain ⟨word, hword, rfl⟩ := List.mem_map.mp hpart
    exact h word hword
  obtain ⟨flagged, hread, hiff⟩ := reading_text hp hparts fun part => ofChar?_eq_none hq
  refine ⟨flagged, ?_, hiff.trans ⟨?_, ?_⟩⟩
  · rw [Tokens.ofLine_eq_ok_iff hp.sparesQuotes, toList_line_of_ne hp hne, List.map_cons,
      dropWhile_text hp hne hs]
    exact hread
  · rintro ⟨part, hpart, hask⟩
    obtain ⟨word, hword, rfl⟩ := List.mem_map.mp hpart
    exact ⟨word, hword, hask⟩
  · rintro ⟨word, hword, hask⟩
    exact ⟨word.toList, List.mem_map_of_mem hword, hask⟩

theorem readsBack_of_ofLine_line (hp : p.Regular)
    (hq : ∀ part ∈ program :: args, ∀ q : Quote, q.char ∉ part.toList) {flagged : Bool}
    (h : Tokens.ofLine p (line p program args) = .ok ⟨program :: args, flagged⟩) :
    (∀ part ∈ program :: args, ReadsBack p part.toList) ∧ StartsInSight program.toList := by
  rw [Tokens.ofLine_eq_ok_iff hp.sparesQuotes, toList_line hp] at h
  have hwords : ∀ part ∈ (words program args).map String.toList, ∀ c ∈ part,
      Quote.ofChar? c = none := by
    intro part hpart
    apply ofChar?_eq_none hq
    refine List.map_subset _ ?_ hpart
    unfold words
    split
    · exact List.subset_cons_self _ _
    · exact List.Subset.refl _
  have hencoded := (encoded_text hp hwords).dropWhile (f := Text.isBlank) fun he => by
    rw [hp.escape_blank] at he
    cases he
  obtain ⟨found, flag, hread, hback⟩ := reading_encoded hp hencoded
  rw [h] at hread
  cases hread
  have hparts : ∀ part ∈ program :: args, ReadsBack p part.toList := fun part hpart =>
    hback _ (List.mem_map_of_mem hpart)
  refine ⟨hparts, ?_⟩
  rw [← toList_line hp, toList_line_of_ne hp (hparts program List.mem_cons_self).1] at h hencoded
  refine startsInSight_of_reading hp hencoded ?_ ?_ h
  · intro c hc
    have hfirst := List.head?_dropWhile_not Text.isBlank
      (text p.escape ((program :: args).map String.toList))
    rw [Option.mem_def.mp hc] at hfirst
    exact hfirst
  · intro hmem
    have hmem := (List.dropWhile_suffix _).subset hmem
    refine newline_not_mem_text hp ?_ hmem
    intro part hpart
    exact (hback part hpart).newline_not_mem

/-- A displayed line reads back as its own words exactly if each of them is a run of one operator or
has nothing in it that breaks a word off, and the first starts in sight. It then needs a shell
exactly if one of them asks for it. -/
theorem stock_readsBack_iff (onWindows : Bool) (program : String) (args : List String)
    (hq : ∀ part ∈ program :: args, ∀ q : Quote, q.char ∉ part.toList) :
    let p := Profile.stock onWindows
    ((∃ flagged, Tokens.ofLine p (line p program args) = .ok ⟨program :: args, flagged⟩) ↔
        (∀ part ∈ program :: args, ReadsBack p part.toList) ∧ StartsInSight program.toList) ∧
      ∀ flagged, Tokens.ofLine p (line p program args) = .ok ⟨program :: args, flagged⟩ →
        (flagged = true ↔ ∃ part ∈ program :: args, AsksForShell p part.toList) := by
  have hp := Profile.stock_regular onWindows
  refine ⟨⟨?_, ?_⟩, ?_⟩
  · rintro ⟨flagged, h⟩
    exact readsBack_of_ofLine_line hp hq h
  · rintro ⟨h, hs⟩
    obtain ⟨flagged, hline, -⟩ := ofLine_line_of_readsBack hp hq h hs
    exact ⟨flagged, hline⟩
  · intro flagged h
    obtain ⟨hback, hs⟩ := readsBack_of_ofLine_line hp hq h
    obtain ⟨flagged', hline, hiff⟩ := ofLine_line_of_readsBack hp hq hback hs
    rw [h] at hline
    cases hline
    exact hiff

theorem stock_readsBack_iff_pipe :
    (∀ part ∈ ["a b", "||", "$(x"], ∀ q : Quote, q.char ∉ part.toList) ∧
      (∀ part ∈ ["a b", "||", "$(x"], ReadsBack .posix part.toList) ∧
      StartsInSight "a b".toList := by
  have hq : ∀ part ∈ ["a b", "||", "$(x"], ∀ q : Quote, q.char ∉ part.toList := by
    intro part hpart q
    cases q <;> revert part <;> decide
  exact ⟨hq, ((stock_readsBack_iff false "a b" ["||", "$(x"] hq).1.mp ⟨true, rfl⟩)⟩

end Line

end ShellLine.Display
