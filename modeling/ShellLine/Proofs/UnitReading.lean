import ShellLine.Proofs.EncodedReading

/-!
# Words in units are read back

A word that reads back is read off the front of a displayed text as one token, whatever words follow
it: the units of a word are taken one by one, a run of one operator all at once. By induction on the
list of words, they are read in their order, and the line needs a shell if one of them asks for it.
-/

namespace ShellLine.Display

open Item

variable {p : Profile}

/-- Something in the word leaves the line to a shell. -/
def AsksForShell (p : Profile) (part : List Char) : Prop :=
  IsRun part ∨ ∃ c ∈ part, c ∈ p.shellOnly

theorem reading_ends (hp : p.Regular) {tail : List Char} (ht : Ends tail) :
    p.reading tail = p.reading tail.tail := by
  rcases ht with rfl | ⟨rest, rfl⟩
  · rfl
  · exact reading_blank (hp.role_separator (.inl rfl)) rest

theorem not_shellOnly_of_unit (hp : p.Regular) {c : Char}
    (hc : c = p.escape ∨ c = ' ' ∨ c = '\t') : p.shellOnly.contains c = false := by
  refine Bool.eq_false_iff.mpr fun hmem => ?_
  obtain ⟨hne, -, hblank⟩ := hp.shellOnly c (by simpa using hmem)
  rcases hc with rfl | rfl | rfl
  · exact hne rfl
  · cases hblank
  · cases hblank

theorem word_units (hp : p.Regular) {previous : Char} {part tail : List Char}
    (h : Unbroken (some previous) part) (hq : ∀ c ∈ part, Quote.ofChar? c = none)
    (ht : Ends tail) :
    word p previous (part.flatMap (unit p.escape) ++ tail) =
      .ok { text := part, flagged := part.any p.shellOnly.contains, rest := tail.tail } := by
  induction part generalizing previous with
  | nil =>
    rcases ht with rfl | ⟨rest, rfl⟩
    · rfl
    · exact word_separator (.inr (hp.role_separator (.inl rfl))) previous rest
  | cons c part ih =>
    obtain ⟨⟨hnl, hop⟩, hpart⟩ := unbroken_cons.mp h
    have hrest := ih hpart fun d hd => hq d (List.mem_cons_of_mem c hd)
    rw [List.flatMap_cons, List.any_cons, List.append_assoc]
    by_cases hc : c = p.escape ∨ c = ' ' ∨ c = '\t'
    · rw [unit, if_pos hc, not_shellOnly_of_unit hp hc, List.cons_append, List.singleton_append,
        word_pair, hrest, escaped, if_neg hnl]
      rfl
    · rw [unit, if_neg hc, List.singleton_append]
      cases hrole : p.role c with
      | escape => exact absurd hrole (Profile.role_ne_escape fun he => hc (.inl he))
      | comment =>
        have hshell : p.shellOnly.contains c = false := Bool.eq_false_iff.mpr fun hmem =>
          (hp.shellOnly c (by simpa using hmem)).2.1 (Profile.role_fits hrole)
        rw [word_comment hrole, hrest, hshell]
        rfl
      | quote q => exact absurd hrole (Profile.role_ne_quote (hq c List.mem_cons_self) q)
      | operator =>
        obtain ⟨hparen, hcall⟩ := hop (Profile.role_fits hrole)
        rw [word_operator hrole, if_pos (by simpa [hparen] using hcall), hrest]
        rfl
      | newline => exact absurd (Profile.role_fits hrole) hnl
      | blank => exact absurd (.inr (Profile.role_fits hrole)) hc
      | plain =>
        rw [word_plain hrole, hrest]
        rfl

theorem not_isRun_of_unbroken {part : List Char} (h : Unbroken none part) : ¬ IsRun part := by
  rintro ⟨c, n, hc, hn, rfl⟩
  obtain ⟨m, rfl⟩ : ∃ m, n = m + 1 := ⟨n - 1, by omega⟩
  rw [List.replicate_succ] at h
  simpa using ((unbroken_cons.mp h).1.2 hc).2

theorem read_run (hp : p.Regular) {c : Char} (hc : isOperator c = true) (n : Nat)
    {tail : List Char} (ht : Ends tail) :
    read p c (List.replicate n c ++ tail) =
      .ok { token := some (List.replicate (n + 1) c), flagged := true, rest := tail } := by
  have htail : tail.takeWhile (· = c) = [] ∧ tail.dropWhile (· = c) = tail := by
    rcases ht with rfl | ⟨rest, rfl⟩
    · exact ⟨rfl, rfl⟩
    · have hne : ' ' ≠ c := by
        rintro rfl
        cases hc
      simp [hne]
  have hrun : ∀ d ∈ List.replicate n c, (decide (d = c)) = true := by
    intro d hd
    simpa using List.eq_of_mem_replicate hd
  rw [read_operator (hp.role_operator hc), List.takeWhile_append_of_pos hrun,
    List.dropWhile_append_of_pos hrun, htail.1, htail.2, List.append_nil, List.replicate_succ]

theorem read_units (hp : p.Regular) {c : Char} {part tail : List Char}
    (h : Unbroken none (c :: part)) (hcom : ∀ d ∈ p.comment, c ≠ d)
    (hq : ∀ d ∈ c :: part, Quote.ofChar? d = none) (ht : Ends tail) :
    ∃ d rest, (c :: part).flatMap (unit p.escape) ++ tail = d :: rest ∧ read p d rest = .ok {
      token := some (c :: part), flagged := (c :: part).any p.shellOnly.contains
      rest := tail.tail } := by
  obtain ⟨⟨hnl, hop⟩, hpart⟩ := unbroken_cons.mp h
  have hrest := word_units hp hpart (fun d hd => hq d (List.mem_cons_of_mem c hd)) ht
  rw [List.flatMap_cons, List.append_assoc, List.any_cons]
  by_cases hc : c = p.escape ∨ c = ' ' ∨ c = '\t'
  · rw [unit, if_pos hc, not_shellOnly_of_unit hp hc]
    refine ⟨_, _, rfl, ?_⟩
    rw [List.append_eq, List.singleton_append, read_pair hnl, hrest]
    rfl
  · rw [unit, if_neg hc]
    refine ⟨_, _, rfl, ?_⟩
    cases hrole : p.role c with
    | escape => exact absurd hrole (Profile.role_ne_escape fun he => hc (.inl he))
    | comment => exact absurd rfl (hcom c (Profile.role_fits hrole))
    | quote q => exact absurd hrole (Profile.role_ne_quote (hq c List.mem_cons_self) q)
    | operator => simpa using (hop (Profile.role_fits hrole)).2
    | newline => exact absurd (Profile.role_fits hrole) hnl
    | blank => exact absurd (.inr (Profile.role_fits hrole)) hc
    | plain =>
      rw [List.append_eq, List.nil_append, read_plain hrole, hrest]
      rfl

theorem flatMap_unit_run (hp : p.Regular) {c : Char} (hc : isOperator c = true) (n : Nat) :
    (List.replicate n c).flatMap (unit p.escape) = List.replicate n c := by
  have hne : ¬ (c = p.escape ∨ c = ' ' ∨ c = '\t') := fun h => by
    rw [(not_isOperator_of_unit hp h).2] at hc
    cases hc
  induction n with
  | zero => rfl
  | succ n ih => rw [List.replicate_succ, List.flatMap_cons, ih, unit, if_neg hne]; rfl

theorem reading_part (hp : p.Regular) {part tail : List Char} (h : ReadsBack p part)
    (hq : ∀ c ∈ part, Quote.ofChar? c = none) (ht : Ends tail) :
    ∃ flagged, (flagged = true ↔ AsksForShell p part) ∧
      p.reading (part.flatMap (unit p.escape) ++ tail) =
        (p.reading tail.tail).map fun r => (part :: r.1, flagged || r.2) := by
  obtain ⟨hne, hrun | ⟨hword, hcom⟩⟩ := h
  · refine ⟨true, by simp [AsksForShell, hrun], ?_⟩
    obtain ⟨c, n, hc, hn, rfl⟩ := hrun
    obtain ⟨m, rfl⟩ : ∃ m, n = m + 1 := ⟨n - 1, by omega⟩
    have hread := reading_cons (read_run hp hc m ht)
    rw [reading_ends hp ht] at hread
    rw [flatMap_unit_run hp hc]
    exact hread
  · obtain ⟨c, part, rfl⟩ := List.exists_cons_of_ne_nil hne
    refine ⟨(c :: part).any p.shellOnly.contains, ?_, ?_⟩
    · simp only [AsksForShell, not_isRun_of_unbroken hword, false_or, List.any_eq_true,
        List.contains_iff_mem]
    · obtain ⟨d, rest, hd, hread⟩ :=
        read_units hp hword (fun d hd he => hcom d hd (by rw [he]; rfl)) hq ht
      rw [hd]
      exact reading_cons hread

theorem reading_text (hp : p.Regular) {parts : List (List Char)}
    (h : ∀ part ∈ parts, ReadsBack p part)
    (hq : ∀ part ∈ parts, ∀ c ∈ part, Quote.ofChar? c = none) :
    ∃ flagged, p.reading (text p.escape parts) = .ok (parts, flagged) ∧
      (flagged = true ↔ ∃ part ∈ parts, AsksForShell p part) := by
  induction parts with
  | nil => exact ⟨false, reading_nil, by simp⟩
  | cons part parts ih =>
    obtain ⟨later, hlater, hiff⟩ := ih (fun part' hm => h part' (List.mem_cons_of_mem part hm))
      fun part' hm => hq part' (List.mem_cons_of_mem part hm)
    have hpart := h part List.mem_cons_self
    have hqpart := hq part List.mem_cons_self
    obtain ⟨tail, ht, htail, htext⟩ := text_cons p.escape part parts
    obtain ⟨first, hfirst, hread⟩ := reading_part hp hpart hqpart ht
    refine ⟨first || later, ?_, ?_⟩
    · rw [htext, hread, htail, hlater]
      rfl
    · rw [Bool.or_eq_true, hfirst, hiff]
      simp

end ShellLine.Display
