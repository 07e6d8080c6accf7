import ShellLine.Proofs.OpenRegion

/-!
# What the tokens keep of a line

Of each character of a line the tokens keep one copy, in its place, unless it only says how to read
the others: room between tokens, an escape, a newline behind one, a comment, or the quotes of a
region that is a token of its own. At each place the text of the scan is what has been kept so far,
and at the end of a line that is not refused it is all in the tokens.
-/

namespace ShellLine

namespace Scan

variable {p : Profile} {s : Scan} {text : List Char} {n : Nat} {c : Char} {peek : Option Char}

/-- The character `c` at place `n` of the text goes into no token. -/
@[mk_iff] inductive Dropped (p : Profile) (text : List Char) (n : Nat) (c : Char) : Prop where
  | separator (h : (before p text n).Outside c) (hc : isSeparator c = true)
  | escape (hesc : (before p text n).escaped = false) (hsh : (before p text n).shielded = false)
      (hc : c = p.escape)
  | continuation (hesc : (before p text n).escaped = true) (hc : c = '\n')
  | commentMark (h : (before p text n).BeginsComment p c)
  | comment (h : ∃ m < n, CommentAt p text m ∧ '\n' ∉ (text.take n).drop (m + 1)) (hc : c ≠ '\n')
  | opening (h : (before p text n).Plain c) (hword : (before p text n).hasToken = false)
      (hc : (Quote.ofChar? c).isSome = true)
  | closing (hesc : (before p text n).escaped = false)
      (hc : ∃ region ∈ (before p text n).region?, c = region.quote.char ∧
        (before p text region.start).hasToken = false)

theorem consumed_readRole (r : Role) :
    (s.readRole p c peek r).consumed = match r with
      | .operator | .plain => true
      | .comment | .quote _ => s.hasToken
      | .escape | .newline | .blank => false := by
  cases r with
  | escape => rfl
  | comment =>
    simp only [readRole, readComment]
    cases s.hasToken <;> rfl
  | quote q =>
    simp only [readRole, openQuote]
    cases s.hasToken <;> rfl
  | operator =>
    simp only [readRole, readOperator]
    split
    · rfl
    · split <;> rfl
  | newline | blank =>
    simp only [readRole, readSeparator, pending]
    cases s.hasToken <;> rfl
  | plain => rfl

theorem consumed_step_plain (h : s.Plain c) :
    (s.step p c peek).consumed = match p.role c with
      | .operator | .plain => true
      | .comment | .quote _ => s.hasToken
      | .escape | .newline | .blank => false := by
  rw [step_plain h]
  exact consumed_readRole _

theorem not_closesEmbedded_of_quote (h : s.quote = none) : ¬ s.ClosesEmbedded p c := fun hc => by
  have hquote := hc.quote
  rw [h] at hquote
  cases hquote

theorem not_consumed_of_dropped (hp : p.Regular) (hc : text[n]? = some c)
    (h : Dropped p text n c) :
    ((before p text n).step p c peek).consumed = false ∧
      ¬ (before p text n).ClosesEmbedded p c := by
  have hn : n < text.length := (List.getElem?_eq_some_iff.mp hc).1
  have hcoherent : (before p text n).Coherent (some c) := hc ▸ coherent_before (Nat.le_of_lt hn)
  cases h with
  | separator h hsep =>
    have hop : isOperator c = false := by
      rw [Bool.eq_false_iff]
      intro hop
      rw [isSeparator_of_isOperator hop] at hsep
      cases hsep
    have hplain : (before p text n).Plain c := ⟨h, hcoherent.operator_eq_none hop⟩
    refine ⟨?_, not_closesEmbedded_of_quote h.quote⟩
    rw [consumed_step_plain hplain]
    simp only [isSeparator, Bool.or_eq_true, beq_iff_eq] at hsep
    rcases hsep with hblank | rfl
    · rw [hp.role_separator hblank]
    · rw [hp.role_newline]
  | escape hesc hsh hescape =>
    obtain ⟨hcom, hq⟩ : (before p text n).inComment = false ∧
        (before p text n).quote ≠ some .single := by simpa [shielded] using hsh
    have ho := hcoherent.operator_eq_none (hescape ▸ hp.escape_operator)
    refine ⟨?_, fun h => h.escape hescape⟩
    simp [step, Scan.read, hcom, ho, hesc, hescape, readEscape, hq]
  | continuation hesc hnl =>
    have ho := hcoherent.operator_eq_none (hnl ▸ rfl)
    refine ⟨?_, fun h => h.ne_newline hnl⟩
    simp [step, Scan.read, ho, hesc, hnl, readEscaped]
  | commentMark h =>
    refine ⟨?_, not_closesEmbedded_of_quote h.plain.quote⟩
    rw [consumed_step_plain h.plain, hp.role_comment h.mark]
    exact h.noToken
  | comment hcomment hnl =>
    have hcom := (inComment_before_iff hp (Nat.le_of_lt hn)).mpr hcomment
    have hquote := quote_of_inComment hp.sparesQuotes (Nat.le_of_lt hn) hcom
    refine ⟨?_, not_closesEmbedded_of_quote hquote⟩
    simp [step, hcom, hnl]
  | opening h hword hquote =>
    obtain ⟨q, hq⟩ := Option.isSome_iff_exists.mp hquote
    obtain rfl := Quote.ofChar?_eq_some.mp hq
    refine ⟨?_, not_closesEmbedded_of_quote h.quote⟩
    rw [consumed_step_plain h, hp.role_quote]
    exact hword
  | closing hesc hregion =>
    obtain ⟨region, hregion, rfl, hword⟩ := hregion
    have hq := quote_of_region? hregion
    have hready := ready_of_quote hp.sparesQuotes hc (by cases region.quote <;> rfl) hq hesc
    have hembedded : (before p text n).embedded = false := by
      rw [embedded_of_region? hregion, (origin_of_region (Nat.le_of_lt hn) hregion).embedded, hword]
    refine ⟨?_, fun h => ?_⟩
    · rw [step_closing hp.sparesQuotes hready hq]
      rfl
    · rw [h.embedded] at hembedded
      cases hembedded

/-- A plain character that says nothing about the others is consumed. -/
theorem consumed_plain_of_not_dropped (hp : p.Regular) (h : (before p text n).Plain c)
    (hkept : ¬ Dropped p text n c) :
    ((before p text n).step p c peek).consumed = true := by
  have hword (hdropped : (before p text n).hasToken = false → Dropped p text n c) :
      (before p text n).hasToken = true := by
    by_contra hword
    exact hkept (hdropped (Bool.eq_false_iff.mpr hword))
  rw [consumed_step_plain h]
  cases hrole : p.role c with
  | operator | plain => rfl
  | comment => exact hword fun hword => .commentMark ⟨h, hword, Profile.role_fits hrole⟩
  | quote q =>
    have hc : c = q.char := Profile.role_fits hrole
    refine hword fun hword => .opening h hword ?_
    rw [Quote.ofChar?_eq_some.mpr hc]
    rfl
  | escape =>
    have hc : c = p.escape := Profile.role_fits hrole
    have hcom : (before p text n).inComment = false :=
      Bool.eq_false_iff.mpr fun hcom => hp.escape_ne_newline (hc ▸ h.inComment hcom)
    exact absurd (.escape h.escaped (by simp [shielded, hcom, h.quote]) hc) hkept
  | newline =>
    obtain rfl : c = '\n' := Profile.role_fits hrole
    exact absurd (.separator h.toOutside rfl) hkept
  | blank =>
    have hc : c = ' ' ∨ c = '\t' := Profile.role_fits hrole
    exact absurd (.separator h.toOutside (by rcases hc with rfl | rfl <;> rfl)) hkept

/-- Between quotes a character is consumed unless it escapes the next one or closes the region. -/
theorem consumed_of_quote (hp : p.SparesQuotes) (hs : s.Ready) {q : Quote} (hq : s.quote = some q)
    (hesc : p.escapesIn q c = false) (hc : c ≠ q.char) (peek : Option Char) :
    (s.step p c peek).consumed = true := by
  rw [step_of_ready hs, read_of_quote hp hs hq]
  simp only [hesc, hc, Bool.false_eq_true, if_false]
  split <;> rfl

/-- A run takes whatever comes, then an escape does; only after them do quotes count. -/
theorem consumed_or_closes_of_not_dropped (hp : p.Regular) (hc : text[n]? = some c)
    (h : ¬ Dropped p text n c) :
    ((before p text n).step p c peek).consumed = true ∨ (before p text n).ClosesEmbedded p c := by
  have hn : n < text.length := (List.getElem?_eq_some_iff.mp hc).1
  have hcoherent : (before p text n).Coherent (some c) := hc ▸ coherent_before (Nat.le_of_lt hn)
  have hcom : (before p text n).inComment = true → c = '\n' := fun hcom => by
    by_contra hnl
    exact h (.comment ((inComment_before_iff hp (Nat.le_of_lt hn)).mp hcom) hnl)
  cases ho : (before p text n).operator with
  | some o =>
    left
    rw [step_of_not_swallowed hcom]
    simp only [Scan.read, ho, readRun]
    split <;> rfl
  | none =>
  cases hesc : (before p text n).escaped with
  | true =>
    have hnl : c ≠ '\n' := fun hnl => h (.continuation hesc hnl)
    left
    rw [step_of_not_swallowed hcom]
    simp [Scan.read, ho, hesc, readEscaped, hnl, Step.append, Step.keep]
  | false =>
  cases hregion : (before p text n).region? with
  | none =>
    have hq := region?_eq_none_iff.mp hregion
    exact .inl (consumed_plain_of_not_dropped hp ⟨⟨hcom, hesc, hq⟩, ho⟩ h)
  | some region =>
    have hq := quote_of_region? hregion
    have hcom : (before p text n).inComment = false := Bool.eq_false_iff.mpr fun hcom => by
      rw [quote_of_inComment hp.sparesQuotes (Nat.le_of_lt hn) hcom] at hq
      cases hq
    have hready : (before p text n).Ready := ⟨hcom, ho, hesc⟩
    by_cases hclose : c = region.quote.char
    · right
      refine ⟨hready, by rw [hq, hclose]; rfl, ?_, ?_, ?_⟩
      · rw [embedded_of_region? hregion, (origin_of_region (Nat.le_of_lt hn) hregion).embedded]
        by_contra hword
        exact h (.closing hesc ⟨region, hregion, hclose, Bool.eq_false_iff.mpr hword⟩)
      · exact hclose ▸ hp.sparesQuotes.escape_ne _
      · exact hclose ▸ hp.sparesQuotes.comment_ne _
    · refine .inl (consumed_of_quote hp.sparesQuotes hready hq ?_ hclose _)
      rw [Bool.eq_false_iff]
      intro hescapes
      obtain ⟨hdouble, hescape⟩ : region.quote = .double ∧ c = p.escape := by
        simpa [Profile.escapesIn] using hescapes
      exact h (.escape hesc (by simp [shielded, hcom, hq, hdouble]) hescape)

instance (p : Profile) (text : List Char) (n : Nat) (c : Char) : Decidable (Dropped p text n c) :=
  decidable_of_iff' _ (dropped_iff p text n c)

theorem text_before_succ (hp : p.Regular) (hc : text[n]? = some c) :
    (before p text (n + 1)).text =
      (before p text n).text ++ if Dropped p text n c then [] else [c] := by
  rw [before_succ hc]
  split
  · rename_i h
    obtain ⟨hconsumed, hcloses⟩ := not_consumed_of_dropped hp hc h
    rw [text_step_of_not_consumed hcloses hconsumed, List.append_nil]
  · rename_i h
    rcases consumed_or_closes_of_not_dropped hp hc h with hconsumed | hcloses
    · exact text_step_of_consumed hconsumed
    · exact (step_of_closesEmbedded hcloses _).1

/-- The characters that are not dropped, in their order. -/
def kept (p : Profile) (text : List Char) : List Char :=
  (text.zipIdx.filter fun (c, n) => ¬ Dropped p text n c).map Prod.fst

/-- At each place the text of the scan is what has been kept of the characters before it. -/
theorem text_before (hp : p.Regular) (hn : n ≤ text.length) :
    (before p text n).text =
      ((text.take n).zipIdx.filter fun (c, n) => ¬ Dropped p text n c).map Prod.fst := by
  induction n, hn using place_induction with
  | zero => simp [Scan.text]
  | succ n c hc hn _ ih =>
    have hlast : ([c].zipIdx (text.take n).length).filter (fun (c, n) => ¬ Dropped p text n c) =
        if Dropped p text n c then [] else [(c, n)] := by
      simp [List.length_take_of_le hn, List.filter_cons]
    rw [text_before_succ hp hc, ih, take_succ_of_getElem? hc, List.zipIdx_append,
      List.filter_append, List.map_append, Nat.zero_add, hlast]
    split <;> rfl

theorem text_run (hp : p.Regular) : (run p {} text).text = kept p text := by
  rw [← before_length, text_before hp le_rfl, List.take_length, kept]

/-- Outside quotes the buffer is empty unless a token has begun. -/
def Settled (s : Scan) : Prop :=
  s.quote = none → s.hasToken = false → s.buffer = []

theorem settled_append (t : Step) : (t.append c).scan.Settled :=
  nofun

theorem settled_flush (t : Step) : t.flush.scan.Settled :=
  fun _ _ => rfl

theorem settled_of_quote (h : s.quote ≠ none) : s.Settled :=
  fun hq => absurd hq h

theorem settled_pending (h : s.Settled) : s.pending.scan.Settled := by
  unfold pending
  split
  · exact settled_flush _
  · exact h

theorem settled_readPlain (h : s.Settled) : (s.readPlain p c peek).scan.Settled := by
  unfold readPlain readOperator readSeparator
  split
  · dsimp only
    split
    · exact nofun
    · exact settled_flush _
  · split
    · split
      · exact settled_pending h
      · exact h
    · exact settled_append _

theorem settled_read (h : s.Settled) : (s.read p c peek).scan.Settled := by
  fun_cases Scan.read s p c peek with
  | case1 =>
    unfold readRun
    dsimp only
    split
    · exact settled_append _
    · exact settled_flush _
  | case2 =>
    unfold readEscaped
    dsimp only
    split
    · exact h
    · exact settled_append _
  | case3 =>
    unfold readEscape
    split
    · exact settled_append _
    · exact h
  | case4 _ _ _ hquote =>
    refine settled_of_quote fun hq : s.quote = none => ?_
    rw [hq] at hquote
    cases hquote
  | case5 =>
    unfold readComment
    split
    · exact settled_append _
    · exact h
  | case6 _ _ _ _ _ q =>
    unfold readQuote
    split
    · exact settled_of_quote (Option.some_ne_none q)
    · rename_i hq
      split
      · exact settled_flush _
      · refine settled_of_quote fun hnone : s.quote = none => ?_
        rw [hnone] at hq
        cases hq
  | case7 => exact settled_readPlain h

theorem settled_step (h : s.Settled) : (s.step p c peek).scan.Settled := by
  unfold step
  split
  · exact h
  · exact settled_read (s := { s with inComment := false }) h

theorem settled_before (hn : n ≤ text.length) : (before p text n).Settled := by
  induction n, hn using place_induction with
  | zero => exact fun _ _ => by rw [before_zero]
  | succ n c hc _ _ ih => exact before_succ hc ▸ settled_step ih

theorem settled_run : (run p {} text).Settled :=
  before_length ▸ settled_before le_rfl

theorem Settled.finish (h : s.Settled) (hq : s.quote = none) : s.finish.flatten = s.text := by
  unfold Scan.finish Scan.text
  split
  · simp
  · rename_i hword
    rw [h hq (Bool.eq_false_iff.mpr hword), List.append_nil]

end Scan

namespace Tokens

/-- The tokens of a line are cut from what is kept of it, without its leading room. -/
theorem stock_flatMap_words (onWindows : Bool) {line : String} {tokens : Tokens}
    (h : ofLine (.stock onWindows) line = .ok tokens) :
    tokens.words.flatMap String.toList =
      Scan.kept (.stock onWindows) (line.toList.dropWhile Text.isBlank) := by
  obtain ⟨hq, rfl⟩ := scan_of_ok h
  rw [← Scan.text_run (Profile.stock_regular onWindows), ← Scan.settled_run.finish hq,
    List.flatMap_map]
  simp [List.flatMap]

/-- Room, the quotes around e f, a comment, the escapes and a newline behind one of them are
dropped; the quotes inside a word are kept. -/
theorem stock_flatMap_words_sundry :
    let line := "\t a'b c'd \"e f\"\\\n #g\n\\h\\"
    ofLine (.stock false) line = .ok ⟨["a'b c'", "d", "e f", "h"], true⟩ ∧
      Scan.kept (.stock false) (line.toList.dropWhile Text.isBlank) = "a'b c'de fh".toList := by
  intro line
  have hline : ofLine (.stock false) line = .ok ⟨["a'b c'", "d", "e f", "h"], true⟩ := by
    decide +kernel
  exact ⟨hline, (stock_flatMap_words false hline).symm⟩

end Tokens

end ShellLine
