import Mathlib.Tactic.MkIffOfInductiveProp
import ShellLine.Proofs.PendingEscape
import ShellLine.Proofs.StepReport
import ShellLine.Tokens

/-!
# The scan at each place of a text

A text is scanned from its front, so one scan stands before each of its characters. What holds of
all of them is proved along the places: it holds of a new scan, and each character keeps it. A
character is plain where nothing reaches over to it from the left, and then its role alone says what
the scan does with it. A comment reaches from the character that begins it up to the next newline.
-/

namespace ShellLine

namespace Scan

variable {p : Profile} {s : Scan} {text : List Char} {n : Nat} {c : Char} {peek : Option Char}

/-- The scan of the text when the first `n` characters of it are read. -/
def before (p : Profile) (text : List Char) (n : Nat) : Scan :=
  upTo p {} (text.take n) (text.drop n)

@[simp] theorem before_zero : before p text 0 = {} := by
  simp [before, upTo]

theorem before_length : before p text text.length = run p {} text := by
  rw [before, List.take_length, List.drop_length, run_eq_upTo]

theorem take_succ_of_getElem? (hc : text[n]? = some c) :
    text.take (n + 1) = text.take n ++ [c] := by
  rw [List.take_add_one, hc]
  rfl

theorem before_succ (hc : text[n]? = some c) :
    before p text (n + 1) = ((before p text n).step p c text[n + 1]?).scan := by
  have hdrop : text.drop n = c :: text.drop (n + 1) := by
    obtain ⟨hn, rfl⟩ := List.getElem?_eq_some_iff.mp hc
    exact List.drop_eq_getElem_cons hn
  rw [before, take_succ_of_getElem? hc, upTo_concat, ← hdrop, List.head?_drop]
  rfl

/-- What holds at the front and is handed on by each character holds at every place. -/
theorem place_induction {motive : (n : Nat) → n ≤ text.length → Prop}
    (zero : motive 0 (Nat.zero_le _))
    (succ : ∀ n c (_ : text[n]? = some c) (hn : n ≤ text.length) (hs : n + 1 ≤ text.length),
      motive n hn → motive (n + 1) hs) (n : Nat) (hn : n ≤ text.length) : motive n hn := by
  induction n with
  | zero => exact zero
  | succ n ih =>
    have hget : text[n]? = some text[n] := List.getElem?_eq_getElem hn
    exact succ n text[n] hget (Nat.le_of_succ_le hn) hn (ih (Nat.le_of_succ_le hn))

theorem position_before (hn : n ≤ text.length) : (before p text n).position = n := by
  induction n, hn using place_induction with
  | zero => rw [before_zero]
  | succ n c hc _ _ ih => rw [before_succ hc, step_frame.2.2, ih]

theorem previous_before (hn : n ≤ text.length) :
    (before p text n).previous = (text.take n).getLast? := by
  induction n, hn using place_induction with
  | zero => rw [before_zero, List.take_zero, List.getLast?_nil]
  | succ n c hc =>
    rw [before_succ hc, step_frame.2.1, take_succ_of_getElem? hc, List.getLast?_concat]

theorem coherent_before (hn : n ≤ text.length) : (before p text n).Coherent text[n]? := by
  induction n, hn using place_induction with
  | zero => exact before_zero (p := p) ▸ coherent_start _
  | succ n c hc _ _ ih =>
    rw [before_succ hc]
    exact coherent_step (hc ▸ ih)

/-- The flag is up if it was, or if one of the characters raised it. -/
theorem needsShell_before (hn : n ≤ text.length) :
    (before p text n).needsShell = true ↔
      ∃ m < n, ∃ c ∈ text[m]?, ((before p text m).step p c text[m + 1]?).flagged = true := by
  induction n, hn using place_induction with
  | zero => simp
  | succ n c hc _ _ ih =>
    rw [before_succ hc, step_frame.1, Bool.or_eq_true, ih]
    constructor
    · rintro (⟨m, hm, d, hd, hflag⟩ | hflag)
      · exact ⟨m, Nat.lt_succ_of_lt hm, d, hd, hflag⟩
      · exact ⟨n, Nat.lt_succ_self n, c, hc, hflag⟩
    · rintro ⟨m, hm, d, hd, hflag⟩
      rcases Nat.lt_succ_iff_lt_or_eq.mp hm with hlt | rfl
      · exact .inl ⟨m, hlt, d, hd, hflag⟩
      · cases hc.symm.trans hd
        exact .inr hflag

/-- No comment, escape or quote takes the character in; a newline ends a comment before itself. -/
@[mk_iff] structure Outside (s : Scan) (c : Char) : Prop where
  inComment : s.inComment = true → c = '\n'
  escaped : s.escaped = false
  quote : s.quote = none

/-- Nothing reaches over to the character. -/
@[mk_iff] structure Plain (s : Scan) (c : Char) : Prop extends s.Outside c where
  operator : s.operator = none

theorem Plain.ready (h : s.Plain c) : ({ s with inComment := false } : Scan).Ready :=
  ⟨rfl, h.operator, h.escaped⟩

/-- What a step does with a plain character hangs on the role of the character. -/
theorem step_plain (h : s.Plain c) (peek : Option Char) :
    s.step p c peek =
      let t := { s with inComment := false }.readRole p c peek (p.role c)
      { t with scan := t.passed c } := by
  rw [step_of_not_swallowed h.inComment, read_of_role h.ready h.quote]

/-- A comment begins with the character. -/
@[mk_iff] structure BeginsComment (p : Profile) (s : Scan) (c : Char) : Prop where
  plain : s.Plain c
  noToken : s.hasToken = false
  mark : p.comment = some c

instance (s : Scan) (c : Char) : Decidable (s.Outside c) :=
  decidable_of_iff' _ (outside_iff s c)

instance (s : Scan) (c : Char) : Decidable (s.Plain c) :=
  decidable_of_iff' _ (plain_iff s c)

instance (p : Profile) (s : Scan) (c : Char) : Decidable (s.BeginsComment p c) :=
  decidable_of_iff' _ (beginsComment_iff p s c)

/-- The text has a comment that begins at place `n`. -/
def CommentAt (p : Profile) (text : List Char) (n : Nat) : Prop :=
  ∃ c ∈ text[n]?, (before p text n).BeginsComment p c

instance (p : Profile) (text : List Char) (n : Nat) : Decidable (CommentAt p text n) :=
  Option.decidableExistsMem _

theorem inComment_read (hp : p.SparesQuotes) (hs : s.inComment = false)
    (h : ¬ s.BeginsComment p c) : (s.read p c peek).scan.inComment = false := by
  fun_cases Scan.read s p c peek with
  | case1 operator => exact (writes_readRun operator).inComment.trans hs
  | case2 =>
    unfold readEscaped
    dsimp only
    split <;> exact hs
  | case3 =>
    unfold readEscape
    split <;> exact hs
  | case4 => exact hs
  | case5 ho hesc _ hquote hmark =>
    unfold readComment
    split
    · exact hs
    · rename_i hword
      have hq : s.quote = none := by simpa [hp.ofChar?_of_comment hmark] using hquote
      exact absurd ⟨⟨⟨by simp [hs], Bool.eq_false_iff.mpr hesc, hq⟩, ho⟩,
        Bool.eq_false_iff.mpr hword, hmark⟩ h
  | case6 =>
    unfold readQuote openQuote
    split
    · dsimp only
      split <;> exact hs
    · split <;> exact hs
  | case7 => exact writes_readPlain.inComment.trans hs

theorem inComment_step (hp : p.SparesQuotes) (h : (s.step p c peek).scan.inComment = true) :
    s.BeginsComment p c ∨ (s.inComment = true ∧ c ≠ '\n') := by
  by_contra! hnot
  obtain ⟨hbegins, hcomment⟩ := hnot
  have hbegins : ¬ ({ s with inComment := false } : Scan).BeginsComment p c := fun hb =>
    hbegins ⟨⟨⟨hcomment, hb.plain.escaped, hb.plain.quote⟩, hb.plain.operator⟩, hb.noToken, hb.mark⟩
  rw [step_of_not_swallowed hcomment] at h
  change (Scan.read _ p c peek).scan.inComment = true at h
  rw [inComment_read hp rfl hbegins] at h
  cases h

theorem BeginsComment.inComment_step (hp : p.Regular) (h : s.BeginsComment p c)
    (peek : Option Char) : (s.step p c peek).scan.inComment = true := by
  rw [step_plain h.plain, hp.role_comment h.mark]
  simp [readRole, readComment, h.noToken, Step.passed]

/-- A comment reaches from where it begins up to the next newline. -/
theorem inComment_before_iff (hp : p.Regular) (hn : n ≤ text.length) :
    (before p text n).inComment = true ↔
      ∃ m < n, CommentAt p text m ∧ '\n' ∉ (text.take n).drop (m + 1) := by
  induction n, hn using place_induction with
  | zero => simp
  | succ n c hc hn _ ih =>
    have hdrop {m : Nat} (hm : m < n) :
        (text.take (n + 1)).drop (m + 1) = (text.take n).drop (m + 1) ++ [c] := by
      rw [take_succ_of_getElem? hc, List.drop_append_of_le_length]
      rw [List.length_take_of_le hn]
      exact hm
    rw [before_succ hc]
    constructor
    · intro h
      rcases inComment_step hp.sparesQuotes h with hbegins | ⟨hcomment, hnl⟩
      · refine ⟨n, Nat.lt_succ_self n, ⟨c, hc, hbegins⟩, ?_⟩
        rw [List.drop_eq_nil_of_le (List.length_take_le _ _)]
        exact List.not_mem_nil
      · obtain ⟨m, hm, hbegins, hline⟩ := ih.mp hcomment
        refine ⟨m, Nat.lt_succ_of_lt hm, hbegins, ?_⟩
        rw [hdrop hm]
        simp [hline, hnl.symm]
    · rintro ⟨m, hm, hbegins, hline⟩
      rcases Nat.lt_succ_iff_lt_or_eq.mp hm with hlt | rfl
      · rw [hdrop hlt, List.mem_append, not_or, List.mem_singleton] at hline
        have hcomment := ih.mpr ⟨m, hlt, hbegins, hline.1⟩
        simp [step, hcomment, Ne.symm hline.2]
      · obtain ⟨d, hd, hbegins⟩ := hbegins
        cases hc.symm.trans hd
        exact hbegins.inComment_step hp _

end Scan

namespace Tokens

variable {p : Profile} {line : String}

theorem scan_of_ok {tokens : Tokens} (h : ofLine p line = .ok tokens) :
    let s := Scan.run p {} (line.toList.dropWhile Text.isBlank)
    s.quote = none ∧ tokens = ⟨s.finish.map String.ofList, s.needsShell && !s.finish.isEmpty⟩ := by
  intro s
  simp only [ofLine, ofChars] at h
  split at h
  · cases h
  · rename_i hq
    cases h
    exact ⟨hq, rfl⟩

end Tokens

end ShellLine
