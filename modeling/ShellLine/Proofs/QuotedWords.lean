import ShellLine.Proofs.Running
import ShellLine.Proofs.ScanItems

/-!
# Words between quotes

Any word at all can be written down so that it is read back as it is. Between double quotes an
escape character stands before each escape character and each double quote of the word; between
single quotes nothing can be escaped, so a word goes there only if it has no single quote. There may
be room before and behind such a piece, but there need not be: a closing quote ends the token.
-/

namespace ShellLine

/-- Spaces and tabs alone. -/
def IsRoom (text : List Char) : Prop :=
  ∀ c ∈ text, c = ' ' ∨ c = '\t'

/-- A word to be written between quotes, with the room before it. -/
structure Piece where
  room : List Char
  quote : Quote
  word : String
  isRoom : IsRoom room
  fits : quote = .single → Quote.single.char ∉ word.toList

namespace Piece

/-- Any word fits between double quotes. -/
def ofWord (word : String) : Piece where
  room := [' ']
  quote := .double
  word
  isRoom := by simp [IsRoom]
  fits := nofun

section Written

variable (p : Profile)

/-- How one character is written between double quotes. -/
def guarded (c : Char) : List Char :=
  if c = p.escape ∨ c = Quote.double.char then [p.escape, c] else [c]

def inner (a : Piece) : List Char :=
  match a.quote with
  | .single => a.word.toList
  | .double => a.word.toList.flatMap (guarded p)

def written (a : Piece) : List Char :=
  a.room ++ a.quote.char :: (a.inner p ++ [a.quote.char])

/-- The pieces in a row, and room at the end. -/
def line (pieces : List Piece) (last : List Char) : String :=
  String.ofList (pieces.flatMap (written p) ++ last)

end Written

open Item

variable {p : Profile}

theorem region_single {word : List Char} (h : Quote.single.char ∉ word) (rest : List Char) :
    region p .single (word ++ Quote.single.char :: rest) = some (word, rest) := by
  induction word with
  | nil => exact region_close rfl rest
  | cons c word ih =>
    simp only [List.mem_cons, not_or] at h
    rw [List.cons_append, region_plain rfl (Ne.symm h.1), ih h.2]
    rfl

theorem region_double (hp : p.Regular) (word rest : List Char) :
    region p .double (word.flatMap (guarded p) ++ Quote.double.char :: rest) =
      some (word, rest) := by
  have hesc (c : Char) : p.escapesIn .double c = (c == p.escape) := rfl
  have hquote := hp.sparesQuotes.escape_ne .double
  induction word with
  | nil => exact region_close (by simp [hesc, hquote]) rest
  | cons c word ih =>
    rw [List.flatMap_cons, List.append_assoc]
    by_cases hc : c = p.escape ∨ c = Quote.double.char
    · have hnl : c ≠ '\n' := by
        rcases hc with rfl | rfl
        · exact hp.escape_ne_newline
        · decide
      rw [guarded, if_pos hc, List.cons_append, List.cons_append, List.nil_append,
        region_pair (by simp [hesc]), ih, escaped, if_neg hnl]
      rfl
    · rw [guarded, if_neg hc, List.singleton_append]
      rw [not_or] at hc
      rw [region_plain (by simp [hesc, hc.1]) hc.2, ih]
      rfl

theorem region_inner (hp : p.Regular) (a : Piece) (rest : List Char) :
    region p a.quote (a.inner p ++ a.quote.char :: rest) = some (a.word.toList, rest) := by
  unfold inner
  cases hq : a.quote with
  | single => exact region_single (a.fits hq) rest
  | double => exact region_double hp _ rest

theorem reading_room (hp : p.Regular) {room : List Char} (h : IsRoom room) (rest : List Char) :
    p.reading (room ++ rest) = p.reading rest := by
  induction room with
  | nil => rfl
  | cons c room ih =>
    have hc := hp.role_separator (h c List.mem_cons_self)
    rw [List.cons_append, reading_blank hc, ih fun d hd => h d (List.mem_cons_of_mem c hd)]

theorem reading_written (hp : p.Regular) (a : Piece) (rest : List Char) :
    p.reading (a.written p ++ rest) =
      (p.reading rest).map fun r => (a.word.toList :: r.1, r.2) := by
  have hregion := region_inner hp a rest
  rw [written, List.append_assoc, reading_room hp a.isRoom, List.cons_append, List.append_assoc,
    List.singleton_append, reading_cons (read_quote (hp.role_quote a.quote) hregion)]
  cases p.reading rest <;> rfl

theorem reading_pieces (hp : p.Regular) (pieces : List Piece) {last : List Char}
    (h : IsRoom last) :
    p.reading (pieces.flatMap (written p) ++ last) =
      .ok (pieces.map (·.word.toList), false) := by
  induction pieces with
  | nil =>
    have hlast := reading_room hp h []
    simpa using hlast
  | cons a pieces ih =>
    rw [List.flatMap_cons, List.append_assoc, reading_written hp, ih]
    rfl

/-- The strip takes no more than the room before the first piece. -/
theorem reading_dropWhile_written (hp : p.Regular) (a : Piece) (rest : List Char) :
    p.reading ((a.written p ++ rest).dropWhile Text.isBlank) =
      p.reading (a.written p ++ rest) := by
  have hroom : ∀ c ∈ a.room, Text.isBlank c = true := by
    intro c hc
    rcases a.isRoom c hc with rfl | rfl <;> rfl
  have hquote : Text.isBlank a.quote.char = false := by cases a.quote <;> rfl
  rw [written, List.append_assoc, List.dropWhile_append_of_pos hroom, List.cons_append,
    List.dropWhile_cons_of_neg (by simp [hquote]), reading_room hp a.isRoom]

/-- A line of quoted words has just these words for tokens, and needs no shell. -/
theorem ofLine_line (hp : p.Regular) (a : Piece) (pieces : List Piece) {last : List Char}
    (h : IsRoom last) :
    Tokens.ofLine p (line p (a :: pieces) last) =
      .ok ⟨a.word :: pieces.map (·.word), false⟩ := by
  rw [Tokens.ofLine_eq_ok_iff hp.sparesQuotes, line, String.toList_ofList, List.flatMap_cons,
    List.append_assoc, reading_dropWhile_written hp, ← List.append_assoc, ← List.flatMap_cons,
    reading_pieces hp (a :: pieces) h, List.map_cons, List.map_cons, List.map_map]
  rfl

/-- Any words reach a process as its arguments: under the stock profiles, quoting them gives a line
with these tokens, and running that line starts one process with these arguments. -/
theorem stock_line_delivered (onWindows : Bool) (a : Piece) (pieces : List Piece)
    {last : List Char} (h : IsRoom last) :
    let p := Profile.stock onWindows
    let text := line p (a :: pieces) last
    let words := a.word :: pieces.map (·.word)
    Tokens.ofLine p text = .ok ⟨words, false⟩ ∧
      ∀ (s : Session) (o : Run.Settings), s.profile = p → o.inShell ≠ some true → a.word ≠ "" →
        ∃ launch : Launch, launch.argv = words ∧
          ((Run.line o text).final s).launches = s.launches ++ [launch] := by
  intro p text words
  have htokens := ofLine_line (Profile.stock_regular onWindows) a pieces h
  refine ⟨htokens, ?_⟩
  intro s o hs ho ha
  have hdirect : o.usesShell (Command.ofTokens text ⟨words, false⟩) = false := by
    unfold Run.Settings.usesShell
    cases hshell : o.inShell with
    | none => rfl
    | some inShell =>
      rw [hshell] at ho
      simpa using ho
  have hread : Run.readLine text s = .ok (Command.ofTokens text ⟨words, false⟩) s :=
    Run.readLine_of_ok (by rw [hs]; exact htokens)
  obtain ⟨t, ht, hran, -⟩ := Run.execute_direct hdirect ha s
  have hfinal : (Run.line o text).final s = t := by
    rw [Action.final, Run.line, Action.bind_ok hread, ht]
    exact Action.ofExcept_final _ t
  refine ⟨Run.launch o words s, rfl, ?_⟩
  rw [hfinal]
  exact hran.launches

theorem stock_line_delivered_empty_arg :
    ∃ launch : Launch, launch.argv = ["a b", ""] ∧
      ((Run.line {} " \"a b\" \"\"").final ⟨.posix, none, {}, 0, {}⟩).launches = [launch] := by
  have hroom : IsRoom [] := nofun
  have hrun := (stock_line_delivered false (ofWord "a b") [ofWord ""] hroom).2
  exact hrun ⟨.posix, none, {}, 0, {}⟩ {} rfl nofun (show "a b" ≠ "" by decide)

end Piece

end ShellLine
