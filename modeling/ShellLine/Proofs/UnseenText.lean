import ShellLine.Proofs.JoinedTexts

/-!
# Text that leaves no trace

Two kinds of text are read and leave nothing: an escape with the newline behind it, and what stands
in a comment. A line with such a text in it and the line without have the same tokens and the same
flag, or both are refused for the same quote, whose place differs by what stands before it.
-/

namespace ShellLine

theorem isOperator_of_isParen {c : Char} (h : isParen c = true) : isOperator c = true := by
  obtain rfl | rfl : c = '(' ∨ c = ')' := by simpa [isParen] using h
  · rfl
  · rfl

namespace Scan

variable {p : Profile} {s : Scan} {text comment back : List Char} {c : Char}

/-- Characters that leave no trace move the scan on. -/
theorem Marked.withPast_eq (h : s.Marked) (n : Nat) :
    s.withPast ⟨[], false, s.position, n⟩ = { s with position := s.position + n } := by
  have hstart : s.quoteStart.map (Past.moved ⟨[], false, s.position, n⟩) = s.quoteStart := by
    cases hq : s.quoteStart with
    | none => rfl
    | some m => rw [Option.map_some, Past.moved_of_lt (h.lt m hq)]
  simp [withPast, hstart]

/-- Behind an escape and a newline a text reads as if they were not there. The newline is then the
last character read, and before a parenthesis that must come to the same. -/
theorem outcome_continuation (hp : p.Regular) (hesc : (run p {} text).escaped = false)
    (hsh : (run p {} text).shielded = false) (hseam : Seam text back)
    (hcall : text.getLast?.any isCallMark = true → back.head?.any isParen = false) :
    (run p {} (text ++ p.escape :: '\n' :: back)).outcome =
      Past.report ⟨[], false, text.length, 2⟩ (run p {} (text ++ back)).outcome := by
  let s := run p {} text
  let t : Scan := { s with previous := some '\n' }
  have hposition : s.position = text.length := position_run
  have hmarked : s.Marked := marked_run marked_start text
  have ht : t.Marked := ⟨hmarked.isSome, hmarked.lt⟩
  have hescape : Seam text (p.escape :: '\n' :: back) := by
    rintro c - ⟨⟩
    exact hp.escape_operator
  have hpair : ((s.step p p.escape (some '\n')).scan.step p '\n' back.head?).scan =
      t.withPast ⟨[], false, text.length, 2⟩ := by
    rw [step_pair hp (.of_none operator_run_eq_none hesc) hesc hsh, ← hposition]
    exact (ht.withPast_eq 2).symm
  have hprevious : ∀ c ∈ back.head?, isParen c = true →
      (some '\n').any isCallMark = s.previous.any isCallMark := by
    intro c hc hparen
    have hlast : s.previous = text.getLast? := previous_run
    cases hmark : text.getLast?.any isCallMark with
    | false => rw [hlast, hmark]; rfl
    | true =>
      have hback := hcall hmark
      rw [hc, Option.any_some, hparen] at hback
      cases hback
  rw [run_append_of_seam hescape, run_append_of_seam hseam, run, run, List.head?_cons, hpair,
    outcome_run_withPast ht (Nat.le_of_eq hposition.symm), outcome_previous hprevious]

/-- A comment is room of its length. -/
theorem outcome_comment (hp : p.Regular) (hc : p.comment = some c) (hline : '\n' ∉ comment)
    (hback : ∀ d ∈ back.head?, d = '\n') :
    (run p {} (c :: (comment ++ back))).outcome =
      Past.report ⟨[], false, 0, comment.length + 1⟩ (run p {} back).outcome := by
  obtain ⟨-, hdrop⟩ : (comment ++ back).takeWhile (· ≠ '\n') = comment ∧
      (comment ++ back).dropWhile (· ≠ '\n') = back := by
    refine span_append (fun d hd => ?_) fun d hd => ?_
    · simpa using fun h : d = '\n' => hline (h ▸ hd)
    · simpa using hback d hd
  have hitem := Item.read_comment (hp.role_comment hc) (comment ++ back)
  rw [hdrop] at hitem
  have hlength : (c :: (comment ++ back)).length - back.length = comment.length + 1 := by
    simp only [List.length_cons, List.length_append]
    omega
  rw [outcome_item hp.sparesQuotes hitem, hlength]
  rfl

end Scan

namespace Tokens

open Scan

variable {p : Profile}

/-- What leaves no token and no flag shows in the place of an open quote alone. -/
theorem ofOutcome_report_place (lead place n : Nat)
    (r : Except OpenQuote (List (List Char) × Bool)) :
    ofOutcome lead (Past.report ⟨[], false, place, n⟩ r) = (ofOutcome lead r).mapError fun e =>
      { e with position := if e.position < place + lead then e.position else e.position + n } := by
  cases r with
  | ok r => rfl
  | error e =>
    have hplace : Past.moved ⟨[], false, place, n⟩ e.position + lead =
        if e.position + lead < place + lead then e.position + lead
          else e.position + lead + n := by
      simp only [Past.moved, Nat.add_lt_add_iff_right]
      split
      · rfl
      · omega
    simp only [Past.report, ofOutcome, Except.mapError, hplace]

/-- An escape with a newline behind it can be left out of a line that has begun, if nothing shields
it and the texts on both sides of it do not come to something together, neither to one run of an
operator nor to a parenthesis that belongs to a word. A quote that is left open behind it stands two
places further on with it, and one before it where it stands without it. -/
theorem stock_ofLine_continuation (onWindows : Bool) {front back : String}
    (hfront : Text.isAllBlank front = false)
    (hesc : (Scan.ofLine (.stock onWindows) front).escaped = false)
    (hcomment : (Scan.ofLine (.stock onWindows) front).inComment = false)
    (hquote : (Scan.ofLine (.stock onWindows) front).quote ≠ some .single)
    (hrun : ∀ c, front.toList.getLast? = some c → back.toList.head? = some c →
      isOperator c = false)
    (hcall : front.toList.getLast?.any isCallMark = true → back.toList.head?.any isParen = false) :
    let p := Profile.stock onWindows
    ofLine p (front ++ String.ofList [p.escape, '\n'] ++ back) =
      (ofLine p (front ++ back)).mapError fun e => { e with
        position := if e.position < front.length then e.position else e.position + 2 } := by
  intro p
  have hp : p.Regular := Profile.stock_regular onWindows
  let text := front.toList.dropWhile Text.isBlank
  have hne : text ≠ [] := dropWhile_ne_nil hfront
  have hlast : text.getLast? = front.toList.getLast? :=
    (getLast?_dropWhile front.toList).resolve_left hne
  have hsh : (run p {} text).shielded = false := by
    rw [shielded_eq_false_iff]
    rintro (h | h)
    · exact hquote h
    · exact Bool.eq_false_iff.mp hcomment h
  have hseam : Seam text back.toList := by
    intro c hc hhead
    exact hrun c (hlast ▸ hc) hhead
  have hstrip (rest : List Char) : text = [] → rest.dropWhile Text.isBlank = rest :=
    fun h => absurd h hne
  have hlong : (front ++ String.ofList [p.escape, '\n'] ++ back).toList =
      front.toList ++ p.escape :: '\n' :: back.toList := by
    simp
  have hplace : text.length + (front.toList.length - text.length) = front.length := by
    have hle : text.length ≤ front.toList.length := (List.dropWhile_suffix Text.isBlank).length_le
    rw [Nat.add_sub_cancel' hle, String.length_toList]
  calc ofLine p (front ++ String.ofList [p.escape, '\n'] ++ back)
      = ofChars p (front.toList ++ p.escape :: '\n' :: back.toList) := by rw [ofLine, hlong]
    _ = ofOutcome (front.toList.length - text.length)
          (Past.report ⟨[], false, text.length, 2⟩ (run p {} (text ++ back.toList)).outcome) := by
      rw [ofChars_append (hstrip _), outcome_continuation hp hesc hsh hseam (hlast ▸ hcall)]
    _ = _ := by
      rw [ofOutcome_report_place, hplace, ← ofChars_append (hstrip _), ofLine,
        String.toList_append]

/-- The quote that is open around the break keeps its place, one behind it moves. -/
theorem stock_ofLine_continuation_quoted :
    let front := " a \"b"
    (Scan.ofLine (.stock false) front).quote = some .double ∧
      ofLine (.stock false) (front ++ "\\\n" ++ "c") = .error ⟨.double, 3⟩ ∧
      ofLine (.stock false) (front ++ "c\" 'd") = .error ⟨.single, 8⟩ ∧
      ofLine (.stock false) (front ++ "\\\n" ++ "c\" 'd") = .error ⟨.single, 10⟩ := by
  intro front
  have hquote : (Scan.ofLine (.stock false) front).quote = some .double := by decide +kernel
  have hlast : front.toList.getLast? = some 'b' := by decide
  have hjoined (back : String) :=
    @stock_ofLine_continuation false front back (by decide) (by decide +kernel)
      (by decide +kernel) (by rw [hquote]; decide) (by simp [hlast, isOperator, operators])
      (by simp [hlast, isCallMark])
  have hlength : front.length = 5 := by decide +kernel
  have hwhole : ofLine (.stock false) (front ++ "c\" 'd") = .error ⟨.single, 8⟩ := by
    decide +kernel
  have hcut : ofLine (.stock false) (front ++ "c") = .error ⟨.double, 3⟩ := by decide +kernel
  refine ⟨hquote, (hjoined "c").trans ?_, hwhole, (hjoined "c\" 'd").trans ?_⟩
  · rw [hcut, hlength]
    rfl
  · rw [hwhole, hlength]
    rfl

/-- Behind a comment a line goes on where the comment ends. -/
theorem ofLine_comment {front mark comment back : String} {c : Char} (hp : p.Regular)
    (hc : p.comment = some c) (hmark : mark.toList = [c]) (hfront : (Scan.ofLine p front).AtRest)
    (hword : (Scan.ofLine p front).hasToken = false) (hline : '\n' ∉ comment.toList)
    (hback : ∀ d ∈ back.toList.head?, d = '\n') :
    ofLine p (front ++ mark ++ comment ++ back) =
      ofOutcome 0 (Past.report ⟨(Scan.ofLine p front).finish, (Scan.ofLine p front).needsShell, 0,
        front.length + (comment.length + 1)⟩ (run p {} back.toList).outcome) := by
  obtain ⟨-, -, hblank, hoperator⟩ := hp.comment c hc
  have htext : (mark ++ comment ++ back).toList = c :: (comment.toList ++ back.toList) := by
    rw [String.toList_append, String.toList_append, hmark]
    rfl
  have hanew : (Scan.ofLine p front).StartsAnew p c := by
    refine ⟨fun _ => hoperator, fun hparen => ?_, fun h => ?_⟩
    · rw [isOperator_of_isParen hparen] at hoperator
      cases hoperator
    · rw [hword] at h
      cases h
  have hassoc : front ++ mark ++ comment ++ back = front ++ (mark ++ comment ++ back) := by
    simp only [String.append_assoc]
  rw [hassoc, ofLine_append hfront htext hanew fun _ => hblank,
    outcome_comment hp hc hline hback, Past.report_report, List.append_nil, Bool.or_false,
    String.length_toList]

/-- What stands in a comment is not seen. Without it the line has the same tokens and the same flag,
or is refused for the same quote, which then stands nearer by the length of the comment; and if the
comment ends the line, its mark can be left out as well. -/
theorem posix_ofLine_comment {front comment back : String}
    (hfront : (Scan.ofLine .posix front).AtRest)
    (hword : (Scan.ofLine .posix front).hasToken = false) (hline : '\n' ∉ comment.toList)
    (hback : ∀ d ∈ back.toList.head?, d = '\n') :
    let bare := ofLine .posix (front ++ "#" ++ back)
    let full := ofLine .posix (front ++ "#" ++ comment ++ back)
    full = bare.mapError (fun e => { e with position := e.position + comment.length }) ∧
      (back = "" → full = ofLine .posix front ∧ bare = ofLine .posix front) := by
  intro bare full
  have hp : Profile.posix.Regular := Profile.stock_regular false
  let before := (Scan.ofLine .posix front).finish
  let flagged := (Scan.ofLine .posix front).needsShell
  let r := (run .posix {} back.toList).outcome
  have hscan (comment : String) (h : '\n' ∉ comment.toList) :
      ofLine .posix (front ++ "#" ++ comment ++ back) =
        ofOutcome 0 (Past.report ⟨before, flagged, 0, front.length + (comment.length + 1)⟩ r) :=
    ofLine_comment hp rfl rfl hfront hword h hback
  have hbare : bare = ofOutcome 0 (Past.report ⟨before, flagged, 0, front.length + 1⟩ r) := by
    have hempty := hscan "" nofun
    rwa [String.append_empty] at hempty
  have hfull : full =
      bare.mapError fun e => { e with position := e.position + comment.length } := by
    have hlength : front.length + (comment.length + 1) = comment.length + (front.length + 1) := by
      omega
    have hmoved := ofOutcome_report_place 0 0 comment.length
      (Past.report ⟨before, flagged, 0, front.length + 1⟩ r)
    rw [Past.report_report, List.nil_append, Bool.false_or, ← hlength, ← hscan comment hline,
      ← hbare] at hmoved
    simpa using hmoved
  have hends : back = "" → bare = ofLine .posix front := by
    rintro rfl
    rw [hbare, ofLine_of_atRest hfront]
    change ofOutcome 0 (.ok (before ++ [], flagged || false)) = _
    rw [List.append_nil, Bool.or_false]
    rfl
  refine ⟨hfull, fun hempty => ⟨?_, hends hempty⟩⟩
  rw [hfull, hends hempty, ofLine_of_atRest hfront]
  rfl

/-- Quotes, escapes and operators in the comment do not count, and the newline behind it does. -/
theorem posix_ofLine_comment_quotes :
    let front := "a 'b'"
    let comment := "c' \\\"#&$"
    (Scan.ofLine .posix front).AtRest ∧ (Scan.ofLine .posix front).hasToken = false ∧
      ofLine .posix (front ++ "#" ++ comment) = .ok ⟨["a", "b"], false⟩ ∧
      ofLine .posix (front ++ "#" ++ "\nd") = .ok ⟨["a", "b", "d"], true⟩ ∧
      ofLine .posix (front ++ "#" ++ comment ++ "\nd") = .ok ⟨["a", "b", "d"], true⟩ ∧
      ofLine .posix (front ++ "#" ++ comment ++ "\n\"") = .error ⟨.double, 15⟩ := by
  intro front comment
  have hrest : (Scan.ofLine .posix front).AtRest :=
    ⟨by decide +kernel, by decide +kernel, by decide +kernel⟩
  have hword : (Scan.ofLine .posix front).hasToken = false := by decide +kernel
  have hline : '\n' ∉ comment.toList := by decide
  have hnext : ofLine .posix (front ++ "#" ++ "\nd") = .ok ⟨["a", "b", "d"], true⟩ := by
    decide +kernel
  have hopen : ofLine .posix (front ++ "#" ++ "\n\"") = .error ⟨.double, 7⟩ := by decide +kernel
  have hfront : ofLine .posix front = .ok ⟨["a", "b"], false⟩ := by decide +kernel
  have hscan (back : String) (hback : ∀ d ∈ back.toList.head?, d = '\n') :=
    posix_ofLine_comment hrest hword hline hback
  obtain ⟨-, hends⟩ := hscan "" nofun
  obtain ⟨hplain, -⟩ := hscan "\nd" (by rintro _ ⟨⟩; rfl)
  obtain ⟨hmoved, -⟩ := hscan "\n\"" (by rintro _ ⟨⟩; rfl)
  have hlength : comment.length = 8 := by decide +kernel
  rw [hnext] at hplain
  rw [hopen, hlength] at hmoved
  rw [String.append_empty] at hends
  exact ⟨hrest, hword, (hends rfl).1.trans hfront, hnext, hplain, hmoved⟩

end Tokens

end ShellLine
