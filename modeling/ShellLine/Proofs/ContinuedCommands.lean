import ShellLine.Proofs.PendingEscape
import ShellLine.Tokens

/-!
# Commands of several lines

A command goes on as long as its lines end in an odd number of escape characters. The reader counts
these characters line by line, the scan keeps one bit for a pending escape over the whole text, and
both come to the same: a newline is no escape character, so the count at the end of a line is the
count at that place of the joined text. The blanks that are stripped from the front do not change it
either.
-/

namespace ShellLine

namespace Reader

variable {escape : Char}

theorem trailing_append {front : List Char} (h : ∀ c ∈ front.getLast?, c ≠ escape)
    (back : List Char) : trailing escape (front ++ back) = trailing escape back := by
  induction back using List.reverseRecOn with
  | nil =>
    rw [List.append_nil]
    cases front using List.reverseRecOn with
    | nil => rfl
    | append_singleton front c =>
      rw [trailing_concat, if_neg (h c (by simp))]
      rfl
  | append_singleton back c ih =>
    rw [← List.append_assoc, trailing_concat, trailing_concat, ih]

theorem trailing_dropWhile {f : Char → Bool} (h : f escape = false) (text : List Char) :
    trailing escape (text.dropWhile f) = trailing escape text := by
  have hfront : ∀ c ∈ (text.takeWhile f).getLast?, c ≠ escape := by
    rintro c hc rfl
    have hmem := List.mem_of_getLast? hc
    have hall := List.all_eq_true.mp (List.all_takeWhile (p := f) (l := text)) c hmem
    rw [h] at hall
    cases hall
  conv_rhs => rw [← List.takeWhile_append_dropWhile (p := f) (l := text)]
  exact (trailing_append hfront _).symm

/-- Only the last of the joined lines counts. -/
theorem trailing_intercalate (h : escape ≠ '\n') (lines : List String) (last : String) :
    trailing escape ("\n".intercalate (lines ++ [last])).toList =
      trailing escape last.toList := by
  cases lines with
  | nil => simp
  | cons line lines =>
    have hjoin := String.intercalate_append_of_ne_nil (s := "\n")
      (List.cons_ne_nil line lines) (List.cons_ne_nil last [])
    rw [hjoin, String.intercalate_singleton, String.toList_append]
    exact trailing_append (by simp [h.symm]) _

theorem continues_iff {line : String} :
    continues escape line = true ↔ Odd (trailing escape line.toList) := by
  simp [continues, Nat.odd_iff]

/-- A command takes its lines and leaves the rest. -/
theorem next_lines (prompt : String) {init : List String} {last : String} (rest : List Read)
    (hinit : ∀ line ∈ init, Odd (trailing escape line.toList))
    (hlast : Even (trailing escape last.toList)) :
    next escape prompt (init.map .line ++ .line last :: rest) =
      ⟨prompt :: init.map fun _ => morePrompt, .ok ("\n".intercalate (init ++ [last])), rest⟩ := by
  induction init generalizing prompt with
  | nil =>
    have hends : ¬ continues escape last = true := by
      rwa [continues_iff, Nat.not_odd_iff_even]
    simp [next, hends]
  | cons line init ih =>
    have hcont := continues_iff.mpr (hinit line List.mem_cons_self)
    have hmore := ih morePrompt fun l hl => hinit l (List.mem_cons_of_mem line hl)
    have hjoin := String.intercalate_cons_of_ne_nil (s := "\n") (t := line)
      (List.append_ne_nil_of_right_ne_nil init (List.cons_ne_nil last []))
    simp only [List.map_cons, List.cons_append, next, hcont, if_true, hmore, hjoin]
    rfl

end Reader

open Reader

namespace Scan

variable {p : Profile} {s : Scan}

/-- Behind the whole of `text` and a newline the scan is as it was before the last character of
`text`, but for its place. -/
def DropsBreak (p : Profile) (text rest : List Char) : Prop :=
  ∃ front c, text = front ++ [c] ∧
    let s := upTo p {} front (c :: '\n' :: rest)
    upTo p {} (text ++ ['\n']) rest = { s with previous := some '\n', position := s.position + 2 }

/-- An escape and the newline behind it leave nothing but the place they took. -/
theorem step_pair (hp : p.Regular) (hs : s.Coherent (some p.escape)) (hesc : s.escaped = false)
    (hsh : s.shielded = false) (peek : Option Char) :
    ((s.step p p.escape (some '\n')).scan.step p '\n' peek).scan =
      { s with previous := some '\n', position := s.position + 2 } := by
  have ho := operator_eq_none hp hs
  obtain ⟨hcom, hq⟩ : s.inComment = false ∧ s.quote ≠ some .single := by
    simpa [shielded] using hsh
  have hfirst : (s.step p p.escape (some '\n')).scan =
      { s with escaped := true, previous := some p.escape, position := s.position + 1 } := by
    simp [step, Scan.read, hcom, ho, hesc, readEscape, hq]
  rw [hfirst]
  simp [step, Scan.read, hcom, ho, hesc, readEscaped]

theorem dropsBreak (hp : p.Regular) {text rest : List Char}
    (h : (upTo p {} text ('\n' :: rest)).escaped = true) : DropsBreak p text rest := by
  have hstart (next : List Char) := escaped_upTo (s := {}) hp text next (coherent_start _) rfl
  obtain ⟨hshield, hodd⟩ := (hstart _).2.mp h
  cases text using List.reverseRecOn with
  | nil => cases h
  | append_singleton front c =>
    obtain ⟨rfl, heven⟩ : c = p.escape ∧ Even (trailing p.escape front) := by
      rw [trailing_concat] at hodd
      split at hodd
      · rename_i hc
        exact ⟨hc, by simpa [Nat.odd_add_one] using hodd⟩
      · simp at hodd
    obtain ⟨hcoh, hiff⟩ := escaped_upTo (s := {}) hp front (p.escape :: '\n' :: rest)
      (coherent_start _) rfl
    rw [upTo_concat, List.head?_cons, (step_escape hp hcoh _).1] at hshield
    have hesc : (upTo p {} front (p.escape :: '\n' :: rest)).escaped = false := by
      rw [Bool.eq_false_iff, Ne, hiff, not_and, Nat.not_odd_iff_even]
      exact fun _ => heven
    refine ⟨front, p.escape, rfl, ?_⟩
    rw [upTo_concat, upTo_concat]
    exact step_pair hp hcoh hesc hshield _

end Scan

/-- A place where lines were joined lies behind a line that goes on, so the strip stays in front of
it. -/
theorem Reader.dropWhile_joined {p : Profile} (hp : p.Regular) {front back : List String}
    (hfront : front ≠ []) (hback : back ≠ [])
    (hodd : ∀ line ∈ front, Odd (trailing p.escape line.toList)) :
    ("\n".intercalate (front ++ back)).toList.dropWhile Text.isBlank =
        ("\n".intercalate front).toList.dropWhile Text.isBlank ++
          '\n' :: ("\n".intercalate back).toList ∧
      Odd (trailing p.escape (("\n".intercalate front).toList.dropWhile Text.isBlank)) := by
  have hlast : Odd (trailing p.escape ("\n".intercalate front).toList) := by
    cases front using List.reverseRecOn with
    | nil => exact absurd rfl hfront
    | append_singleton lines line =>
      rw [trailing_intercalate hp.escape_ne_newline]
      exact hodd line (by simp)
  rw [← trailing_dropWhile hp.escape_blank] at hlast
  refine ⟨?_, hlast⟩
  have hne : ("\n".intercalate front).toList.dropWhile Text.isBlank ≠ [] := by
    intro h
    rw [h] at hlast
    simp [trailing] at hlast
  rw [String.intercalate_append_of_ne_nil hfront hback, String.toList_append,
    String.toList_append, List.append_assoc, List.dropWhile_append, if_neg (by simpa using hne)]
  rfl

/-- A command is its first line with all that it goes on to, joined by newlines. No escape is
pending at its end. Each newline between its lines is escaped and falls away together with its
escape, except between single quotes and in a comment. -/
theorem Reader.stock_next_joined (onWindows : Bool) (prompt : String) {init : List String}
    {last : String} (rest : List Read)
    (hinit : ∀ line ∈ init, Odd (trailing (Profile.stock onWindows).escape line.toList))
    (hlast : Even (trailing (Profile.stock onWindows).escape last.toList)) :
    let p := Profile.stock onWindows
    let text := "\n".intercalate (init ++ [last])
    next p.escape prompt (init.map .line ++ .line last :: rest) =
        ⟨prompt :: init.map fun _ => morePrompt, .ok text, rest⟩ ∧
      (Scan.run p {} (text.toList.dropWhile Text.isBlank)).escaped = false ∧
      ∀ front back, init ++ [last] = front ++ back → front ≠ [] → back ≠ [] →
        let before := ("\n".intercalate front).toList.dropWhile Text.isBlank
        let after := ("\n".intercalate back).toList
        text.toList.dropWhile Text.isBlank = before ++ '\n' :: after ∧
          let s := Scan.upTo p {} before ('\n' :: after)
          (s.escaped = true ↔ ¬ (s.quote = some .single ∨ s.inComment = true)) ∧
            (s.escaped = true → Scan.DropsBreak p before after) := by
  intro p text
  have hp : p.Regular := Profile.stock_regular onWindows
  have hscan (text rest : List Char) :=
    (Scan.escaped_upTo (s := {}) hp text rest (Scan.coherent_start _) rfl).2
  refine ⟨next_lines prompt rest hinit hlast, ?_, ?_⟩
  · rw [Bool.eq_false_iff, Ne, Scan.run_eq_upTo, hscan, trailing_dropWhile hp.escape_blank,
      trailing_intercalate hp.escape_ne_newline, not_and, Nat.not_odd_iff_even]
    exact fun _ => hlast
  · intro front back hlines hfront hback before after
    have hodd : ∀ line ∈ front, Odd (trailing p.escape line.toList) := by
      cases back using List.reverseRecOn with
      | nil => exact absurd rfl hback
      | append_singleton back line =>
        rw [← List.append_assoc] at hlines
        have hsplit : init = front ++ back := (List.append_inj' hlines rfl).1
        exact fun line hline => hinit line (hsplit ▸ List.mem_append_left back hline)
    obtain ⟨htext, hbefore⟩ := dropWhile_joined hp hfront hback hodd
    rw [← hlines] at htext
    refine ⟨htext, ?_, Scan.dropsBreak hp⟩
    exact ((hscan _ _).trans (and_iff_left hbefore)).trans Scan.shielded_eq_false_iff

theorem Reader.stock_next_joined_quoted :
    let text := "echo 'a\\\nb' \\\nc"
    (∀ line ∈ ["echo 'a\\", "b' \\"], Odd (trailing '\\' line.toList)) ∧
      Even (trailing '\\' "c".toList) ∧
      next '\\' "$ " [.line "echo 'a\\", .line "b' \\", .line "c", .interrupt] =
        ⟨["$ ", "> ", "> "], .ok text, [.interrupt]⟩ ∧
      (Scan.run .posix {} (text.toList.dropWhile Text.isBlank)).escaped = false := by
  have hinit : ∀ line ∈ ["echo 'a\\", "b' \\"], Odd (trailing '\\' line.toList) := by
    simp only [List.forall_mem_cons]
    exact ⟨by decide, by decide, nofun⟩
  have hlast : Even (trailing '\\' "c".toList) := by decide
  obtain ⟨hnext, hescaped, -⟩ := stock_next_joined false "$ " [.interrupt] hinit hlast
  exact ⟨hinit, hlast, hnext, hescaped⟩

end ShellLine
