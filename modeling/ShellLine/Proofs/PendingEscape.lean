import Mathlib.Algebra.Ring.Parity
import Mathlib.Data.List.Induction
import ShellLine.Proofs.ProfileRoles
import ShellLine.Reader

/-!
# When an escape is pending

A scan is followed up to a place inside its text. Whether an escape is pending there hangs on the
characters right before that place: they have to end in an odd number of escape characters, and the
scan must not be between single quotes or in a comment, where no escape counts. A character that
was fed for some other purpose never leaves an escape pending, because a comment, an operator's run
and an escape exclude each other.
-/

namespace ShellLine

variable {p : Profile} {s : Scan} {c : Char} {peek : Option Char}

namespace Scan

/-- The scan that has read `text` and has `rest` still before it. -/
def upTo (p : Profile) (s : Scan) : List Char → List Char → Scan
  | [], _ => s
  | c :: text, rest => upTo p (s.step p c (text ++ rest).head?).scan text rest

theorem upTo_concat (text : List Char) (c : Char) (rest : List Char) :
    s.upTo p (text ++ [c]) rest = ((s.upTo p text (c :: rest)).step p c rest.head?).scan := by
  induction text generalizing s with
  | nil => rfl
  | cons d text ih =>
    rw [List.cons_append, upTo, upTo, ih, List.append_assoc]
    rfl

theorem run_append (text rest : List Char) :
    run p s (text ++ rest) = run p (s.upTo p text rest) rest := by
  induction text generalizing s with
  | nil => rfl
  | cons c text ih => rw [List.cons_append, run, ih, upTo]

theorem run_eq_upTo (text : List Char) : run p s text = s.upTo p text [] := by
  rw [← List.append_nil text, run_append, List.append_nil, run]

/-- What is open, seen from the character `next` that comes then: a comment and an operator's run
leave no room for anything else, and nothing is escaped between single quotes. -/
structure Coherent (s : Scan) (next : Option Char) : Prop where
  inComment : s.inComment = true → s.operator = none ∧ s.escaped = false
  operator : ∀ o ∈ s.operator, next = some o ∧ isOperator o = true ∧ s.escaped = false
  escaped : s.escaped = true → s.quote ≠ some .single

theorem coherent_start (next : Option Char) : ({} : Scan).Coherent next :=
  ⟨nofun, nofun, nofun⟩

/-- Where nothing is open but quotes. -/
theorem Coherent.of_none (ho : s.operator = none) (he : s.escaped = false) : s.Coherent peek where
  inComment _ := ⟨ho, he⟩
  operator := by simp [ho]
  escaped := by simp [he]

theorem coherent_readRun {o : Char} (hs : s.Coherent (some c)) (ho : s.operator = some o) :
    (s.readRun o c peek).scan.Coherent peek := by
  obtain ⟨-, hop, hesc⟩ := hs.operator o ho
  unfold readRun
  split
  · rename_i hpeek
    refine ⟨fun hcom => ?_, fun o' ho' => ?_, fun he => hs.escaped he⟩
    · rw [(hs.inComment hcom).1] at ho
      cases ho
    · have hoo : o = o' := Option.some.inj (ho.symm.trans ho')
      exact ⟨hoo ▸ hpeek, hoo ▸ hop, hesc⟩
  · exact .of_none rfl hesc

theorem coherent_readEscape (hs : s.inComment = false) (ho : s.operator = none)
    (he : s.escaped = false) : (s.readEscape c).scan.Coherent peek := by
  unfold readEscape
  split
  · exact .of_none ho he
  · rename_i hq
    exact ⟨by simp [hs], by simp [ho], fun _ => hq⟩

/-- Quotes alone are opened and closed. -/
theorem readQuote_frame (q : Quote) :
    (s.readQuote q c).scan.operator = s.operator ∧
      (s.readQuote q c).scan.escaped = s.escaped := by
  unfold readQuote openQuote
  split
  · split <;> exact ⟨rfl, rfl⟩
  · split <;> exact ⟨rfl, rfl⟩

theorem readPlain_frame (peek : Option Char) :
    (s.readPlain p c peek).scan.inComment = s.inComment ∧
      (s.readPlain p c peek).scan.escaped = s.escaped ∧
      ∀ o ∈ (s.readPlain p c peek).scan.operator,
        s.operator = some o ∨ (peek = some o ∧ isOperator o = true) := by
  unfold readPlain readOperator readSeparator pending
  split
  · rename_i hop
    have hop : isOperator c = true := by
      simp only [Bool.and_eq_true] at hop
      exact hop.1
    dsimp only
    split
    · rename_i hpeek
      refine ⟨by split <;> rfl, by split <;> rfl, ?_⟩
      rintro o ⟨⟩
      exact .inr ⟨hpeek, hop⟩
    · split <;> exact ⟨rfl, rfl, fun o ho => .inl ho⟩
  · split
    · split
      · exact ⟨rfl, rfl, fun o ho => .inl ho⟩
      · exact ⟨rfl, rfl, fun o ho => .inl ho⟩
    · exact ⟨rfl, rfl, fun o ho => .inl ho⟩

theorem coherent_read (hs : s.Coherent (some c)) (hcom : s.inComment = false) :
    (s.read p c peek).scan.Coherent peek := by
  fun_cases Scan.read s p c peek with
  | case1 o ho => exact coherent_readRun hs ho
  | case2 ho =>
    unfold readEscaped
    dsimp only
    split <;> exact .of_none ho rfl
  | case3 ho he => exact coherent_readEscape hcom ho (Bool.eq_false_iff.mpr he)
  | case4 ho he => exact .of_none ho (Bool.eq_false_iff.mpr he)
  | case5 ho he =>
    unfold readComment
    split <;> exact .of_none ho (Bool.eq_false_iff.mpr he)
  | case6 ho he _ _ _ q =>
    have hframe := readQuote_frame (s := s) (c := c) q
    exact .of_none (hframe.1.trans ho) (hframe.2.trans (Bool.eq_false_iff.mpr he))
  | case7 ho he =>
    obtain ⟨hc, hesc, hop⟩ := readPlain_frame (p := p) (s := s) (c := c) peek
    have hesc : (s.readPlain p c peek).scan.escaped = false :=
      hesc.trans (Bool.eq_false_iff.mpr he)
    refine ⟨by simp [hc, hcom], fun o h => ?_, by simp [hesc]⟩
    rcases hop o h with h' | ⟨hpeek, hop⟩
    · rw [ho] at h'
      cases h'
    · exact ⟨hpeek, hop, hesc⟩

theorem coherent_step (hs : s.Coherent (some c)) : (s.step p c peek).scan.Coherent peek := by
  unfold step
  split
  · rename_i h
    have hcom : s.inComment = true := by simp_all
    obtain ⟨ho, he⟩ := hs.inComment hcom
    exact .of_none ho he
  · have hs' : ({ s with inComment := false } : Scan).Coherent (some c) :=
      ⟨nofun, hs.operator, hs.escaped⟩
    have hread : (({ s with inComment := false } : Scan).read p c peek).scan.Coherent peek :=
      coherent_read hs' rfl
    exact ⟨hread.inComment, hread.operator, hread.escaped⟩

/-- Between single quotes or in a comment: no escape counts. -/
def shielded (s : Scan) : Bool :=
  s.inComment || s.quote == some .single

theorem shielded_eq_false_iff :
    s.shielded = false ↔ ¬ (s.quote = some .single ∨ s.inComment = true) := by
  simp [shielded, and_comm]

theorem escaped_read_of_ne (hs : s.Coherent (some c)) (hc : c ≠ p.escape) :
    (s.read p c peek).scan.escaped = false := by
  fun_cases Scan.read s p c peek with
  | case1 o ho =>
    have hesc := (hs.operator o ho).2.2
    unfold readRun
    split <;> exact hesc
  | case2 =>
    unfold readEscaped
    dsimp only
    split <;> rfl
  | case3 _ _ h => exact absurd h hc
  | case4 _ he => exact Bool.eq_false_iff.mpr he
  | case5 _ he =>
    unfold readComment
    split <;> exact Bool.eq_false_iff.mpr he
  | case6 _ he _ _ _ q => exact (readQuote_frame q).2.trans (Bool.eq_false_iff.mpr he)
  | case7 _ he => exact (readPlain_frame _).2.1.trans (Bool.eq_false_iff.mpr he)

theorem escaped_step_of_ne (hs : s.Coherent (some c)) (hc : c ≠ p.escape) :
    (s.step p c peek).scan.escaped = false := by
  unfold step
  split
  · rename_i h
    have hcom : s.inComment = true := by simp_all
    exact (hs.inComment hcom).2
  · exact escaped_read_of_ne (s := { s with inComment := false })
      ⟨nofun, hs.operator, hs.escaped⟩ hc

/-- What goes on with an operator's run is that operator. -/
theorem Coherent.operator_eq_none (hs : s.Coherent (some c)) (hc : isOperator c = false) :
    s.operator = none := by
  rw [Option.eq_none_iff_forall_not_mem]
  intro o ho
  obtain ⟨hnext, hop, -⟩ := hs.operator o ho
  rw [← Option.some.inj hnext, hc] at hop
  cases hop

theorem operator_eq_none (hp : p.Regular) (hs : s.Coherent (some p.escape)) :
    s.operator = none :=
  hs.operator_eq_none hp.escape_operator

/-- An escape character neither opens nor closes anything, and takes part in no operator's run. -/
theorem step_escape (hp : p.Regular) (hs : s.Coherent (some p.escape)) (peek : Option Char) :
    (s.step p p.escape peek).scan.shielded = s.shielded ∧
      (s.step p p.escape peek).scan.escaped = (!s.escaped && !s.shielded) := by
  have hnl := hp.escape_ne_newline
  cases hcom : s.inComment with
  | true =>
    have hesc := (hs.inComment hcom).2
    simp [step, shielded, hcom, hesc, hnl]
  | false =>
    have ho := operator_eq_none hp hs
    cases hesc : s.escaped with
    | true =>
      have hq : (s.quote == some .single) = false := by simpa using hs.escaped hesc
      simp [step, Scan.read, hcom, ho, hesc, readEscaped, hnl, shielded, hq, Step.append, Step.keep]
    | false =>
      by_cases hq : s.quote = some .single
      · simp [step, Scan.read, hcom, ho, hesc, readEscape, shielded, hq, Step.append, Step.keep]
      · have hq' : (s.quote == some .single) = false := by simpa using hq
        simp [step, Scan.read, hcom, ho, hesc, readEscape, shielded, hq, hq']

end Scan

open Reader

theorem Reader.trailing_concat (escape c : Char) (text : List Char) :
    trailing escape (text ++ [c]) = if c = escape then trailing escape text + 1 else 0 := by
  by_cases hc : c = escape <;> simp [trailing, hc]

namespace Scan

/-- An escape is pending exactly behind an odd number of escape characters, unless the scan is
shielded. -/
theorem escaped_upTo (hp : p.Regular) (text rest : List Char)
    (hs : s.Coherent (text ++ rest).head?) (hesc : s.escaped = false) :
    (s.upTo p text rest).Coherent rest.head? ∧
      ((s.upTo p text rest).escaped = true ↔
        (s.upTo p text rest).shielded = false ∧ Odd (trailing p.escape text)) := by
  induction text using List.reverseRecOn generalizing rest with
  | nil => exact ⟨hs, by simp [upTo, hesc, trailing]⟩
  | append_singleton text c ih =>
    rw [upTo_concat, trailing_concat]
    obtain ⟨hcoh, hiff⟩ := ih (c :: rest) (by simpa using hs)
    refine ⟨coherent_step hcoh, ?_⟩
    by_cases hc : c = p.escape
    · subst hc
      obtain ⟨hshield, hstep⟩ := step_escape hp hcoh rest.head?
      rw [hshield, hstep, if_pos rfl, Nat.odd_add_one]
      cases hsh : (s.upTo p text (p.escape :: rest)).shielded with
      | true => simp
      | false =>
        rw [hsh] at hiff
        simp only [Bool.not_false, Bool.and_true, Bool.not_eq_true', true_and]
        rw [← Bool.not_eq_true, hiff]
        simp
    · rw [escaped_step_of_ne hcoh hc, if_neg hc]
      simp

end Scan

end ShellLine
