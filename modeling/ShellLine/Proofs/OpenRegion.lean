import ShellLine.Proofs.ContinuedCommands
import ShellLine.Proofs.ScanPlaces

/-!
# Where an open region began

While a region is open the scan remembers its quote and the place of it, and each character leaves
this as it is, closes the region, or opens one where none is open. So an open region has its origin
in the text: the quote stands at its place, nothing was open before it, and the region has been open
ever since. A line that is cut off anywhere behind that place is refused for the same quote, and one
that is cut off right before it is not refused. In a regular profile only an escape keeps the same
quote from closing the region.
-/

namespace ShellLine

/-- A region between quotes; it is embedded if it was opened inside a word. -/
structure Region where
  quote : Quote
  start : Nat
  embedded : Bool
deriving DecidableEq, Repr

namespace Scan

variable {p : Profile} {s : Scan} {text : List Char} {n : Nat} {c : Char} {peek : Option Char}

/-- The region that is open. -/
def region? (s : Scan) : Option Region :=
  s.quote.map fun quote => { quote, start := s.quoteStart.getD 0, embedded := s.embedded }

theorem region?_eq_none_iff : s.region? = none ↔ s.quote = none := by
  simp [region?]

theorem quote_of_region? {region : Region} (h : s.region? = some region) :
    s.quote = some region.quote := by
  obtain ⟨q, hq, rfl⟩ := Option.map_eq_some_iff.mp h
  exact hq

theorem embedded_of_region? {region : Region} (h : s.region? = some region) :
    s.embedded = region.embedded := by
  obtain ⟨q, -, rfl⟩ := Option.map_eq_some_iff.mp h
  rfl

theorem Writes.region? {t : Scan} (h : s.Writes t) : t.region? = s.region? := by
  obtain ⟨_, _, _, _, rfl⟩ := h
  rfl

theorem Writes.embedded {t : Scan} (h : s.Writes t) : t.embedded = s.embedded := by
  obtain ⟨_, _, _, _, rfl⟩ := h
  rfl

/-- What follows a character does not matter for the region; only an operator and the run of one
look at it. -/
theorem region?_step_follower (peek peek' : Option Char) :
    (s.step p c peek).scan.region? = (s.step p c peek').scan.region? := by
  unfold step
  split
  · rfl
  · change (Scan.read _ p c peek).scan.region? = (Scan.read _ p c peek').scan.region?
    unfold Scan.read
    split
    · exact (writes_readRun _).region?.trans (writes_readRun _).region?.symm
    · split_ifs
      · rfl
      · rfl
      · rfl
      · rfl
      · split
        · rfl
        · exact writes_readPlain.region?.trans writes_readPlain.region?.symm

/-- What a character does to the open region. -/
inductive Turns (c : Char) (s t : Scan) : Prop where
  | stays (h : t.region? = s.region?) (hembedded : t.embedded = s.embedded)
  | closes (h : t.region? = none) (hembedded : t.embedded = false)
  | opens (q : Quote) (hc : c = q.char) (hclosed : s.region? = none)
      (h : t.region? = some ⟨q, s.position, s.hasToken || s.embedded⟩)

theorem turns_readQuote {q : Quote} (hc : c = q.char) : Turns c s (s.readQuote q c).scan := by
  unfold readQuote
  split
  · rename_i hq
    refine .opens q hc (region?_eq_none_iff.mpr hq) ?_
    unfold openQuote
    cases hw : s.hasToken <;> simp [region?, Step.append, Step.keep]
  · split
    · exact .closes rfl rfl
    · exact .stays rfl rfl

theorem turns_read : Turns c s (s.read p c peek).scan := by
  fun_cases Scan.read s p c peek with
  | case1 operator =>
    have hrun : s.Writes (s.readRun operator c peek).scan := writes_readRun operator
    exact .stays hrun.region? hrun.embedded
  | case2 =>
    unfold readEscaped
    dsimp only
    split <;> exact .stays rfl rfl
  | case3 =>
    unfold readEscape
    split <;> exact .stays rfl rfl
  | case4 => exact .stays rfl rfl
  | case5 =>
    unfold readComment
    split <;> exact .stays rfl rfl
  | case6 _ _ _ _ _ q hq => exact turns_readQuote (Quote.ofChar?_eq_some.mp hq)
  | case7 => exact .stays writes_readPlain.region? writes_readPlain.embedded

theorem turns_step : Turns c s (s.step p c peek).scan := by
  unfold step
  split
  · exact .stays rfl rfl
  · have hread : Turns c { s with inComment := false }
        (({ s with inComment := false } : Scan).read p c peek).scan := turns_read
    cases hread with
    | stays h hembedded => exact .stays h hembedded
    | closes h hembedded => exact .closes h hembedded
    | opens q hc hclosed h => exact .opens q hc hclosed h

theorem turns_before (p : Profile) (hc : text[n]? = some c) :
    Turns c (before p text n) (before p text (n + 1)) :=
  before_succ hc ▸ turns_step

theorem embedded_before (hn : n ≤ text.length) (h : (before p text n).region? = none) :
    (before p text n).embedded = false := by
  induction n, hn using place_induction with
  | zero => rw [before_zero]
  | succ n c hc _ _ ih =>
    cases turns_before p hc with
    | stays hstays hembedded => exact hembedded.trans (ih (hstays.symm.trans h))
    | closes _ hembedded => exact hembedded
    | opens _ _ _ hopens =>
      rw [hopens] at h
      cases h

/-- Where the region that is open behind `n` characters began. -/
structure Origin (p : Profile) (text : List Char) (n : Nat) (region : Region) : Prop where
  start_lt : region.start < n
  quote : text[region.start]? = some region.quote.char
  closed : (before p text region.start).region? = none
  embedded : region.embedded = (before p text region.start).hasToken
  since : ∀ m, region.start < m → m ≤ n → (before p text m).region? = some region

theorem origin_of_region {region : Region} (hn : n ≤ text.length)
    (h : (before p text n).region? = some region) : Origin p text n region := by
  induction n, hn using place_induction with
  | zero =>
    rw [before_zero] at h
    cases h
  | succ n c hc hn _ ih =>
    cases turns_before p hc with
    | stays hstays =>
      obtain ⟨hlt, hquote, hclosed, hembedded, hsince⟩ := ih (hstays.symm.trans h)
      refine ⟨Nat.lt_succ_of_lt hlt, hquote, hclosed, hembedded, fun m hm hmn => ?_⟩
      rcases Nat.le_succ_iff.mp hmn with hle | rfl
      · exact hsince m hm hle
      · exact h
    | closes hcloses =>
      rw [hcloses] at h
      cases h
    | opens q hq hclosed hopens =>
      have hregion := h
      rw [hopens, position_before hn, embedded_before hn hclosed, Bool.or_false] at hregion
      obtain rfl := Option.some.inj hregion
      refine ⟨Nat.lt_succ_self n, hq ▸ hc, hclosed, rfl, fun m hm hmn => ?_⟩
      obtain rfl : m = n + 1 := Nat.le_antisymm hmn hm
      exact h

theorem upTo_congr {rest rest' : List Char} (h : rest.head? = rest'.head?) (text : List Char) :
    upTo p s text rest = upTo p s text rest' := by
  induction text generalizing s with
  | nil => rfl
  | cons c text ih =>
    have hhead : (text ++ rest).head? = (text ++ rest').head? := by
      cases text with
      | nil => exact h
      | cons => rfl
    rw [upTo, upTo, hhead, ih]

/-- The end of a text that is cut off is not seen from the places before it. -/
theorem before_take {m : Nat} (hm : m < n) : before p (text.take n) m = before p text m := by
  have hhead : ((text.take n).drop m).head? = (text.drop m).head? := by
    rw [List.head?_drop, List.head?_drop, List.getElem?_take_of_lt hm]
  rw [before, before, List.take_take, Nat.min_eq_left (Nat.le_of_lt hm)]
  exact upTo_congr hhead _

theorem region?_run_take (hn : n ≤ text.length) :
    (run p {} (text.take n)).region? = (before p text n).region? := by
  have hlength : (text.take n).length = n := List.length_take_of_le hn
  rw [← before_length, hlength]
  cases n with
  | zero => rw [before_zero, before_zero]
  | succ m =>
    have hc : text[m]? = some text[m] := List.getElem?_eq_getElem hn
    have hc' : (text.take (m + 1))[m]? = some text[m] := by
      rw [List.getElem?_take_of_lt (Nat.lt_succ_self m), hc]
    rw [before_succ hc, before_succ hc', before_take (Nat.lt_succ_self m)]
    exact region?_step_follower _ _

/-- There are no comments in regions and no regions in comments. -/
theorem quote_of_inComment (hp : p.SparesQuotes) (hn : n ≤ text.length)
    (h : (before p text n).inComment = true) : (before p text n).quote = none := by
  induction n, hn using place_induction with
  | zero => rw [before_zero]
  | succ n c hc hn _ ih =>
    have hturns := turns_before p hc
    rw [before_succ hc] at h
    rcases inComment_step hp h with hbegins | ⟨hcomment, hnl⟩
    · rw [← region?_eq_none_iff]
      cases hturns with
      | stays hstays => exact hstays.trans (region?_eq_none_iff.mpr hbegins.plain.quote)
      | closes hcloses => exact hcloses
      | opens q hq => exact absurd (hq ▸ hbegins.mark) (hp.comment_ne q)
    · rw [before_succ hc, step, if_pos (by simp [hcomment, hnl])]
      exact ih hcomment

theorem escaped_before (hp : p.Regular) :
    (before p text n).escaped = true ↔
      (before p text n).shielded = false ∧ Odd (Reader.trailing p.escape (text.take n)) :=
  (escaped_upTo (s := {}) hp _ _ (coherent_start _) rfl).2

theorem step_closing (hp : p.SparesQuotes) (hs : s.Ready) {q : Quote} (hq : s.quote = some q)
    (peek : Option Char) :
    s.step p q.char peek =
      let t := s.closeQuote q.char
      { t with scan := t.passed q.char } := by
  have hescapes : p.escapesIn q q.char = false := by simp [Profile.escapesIn, hp.escape_ne q]
  rw [step_of_ready hs, read_of_quote hp hs hq, hescapes]
  simp only [Bool.false_eq_true, if_false, if_true]

/-- Between quotes nothing but an escape reaches over to the next character. -/
theorem ready_of_quote (hp : p.SparesQuotes) (hc : text[n]? = some c)
    (hop : isOperator c = false) {q : Quote} (hq : (before p text n).quote = some q)
    (hesc : (before p text n).escaped = false) : (before p text n).Ready := by
  have hn : n ≤ text.length := Nat.le_of_lt (List.getElem?_eq_some_iff.mp hc).1
  have hcoherent : (before p text n).Coherent (some c) := hc ▸ coherent_before hn
  refine ⟨Bool.eq_false_iff.mpr fun hcom => ?_, hcoherent.operator_eq_none hop, hesc⟩
  rw [quote_of_inComment hp hn hcom] at hq
  cases hq

/-- Between single quotes no single quote follows, and a double quote between double quotes has an
odd number of escapes right before it, all inside the region. -/
theorem Origin.kept_open {region : Region} (hp : p.Regular)
    (horigin : Origin p text text.length region) {front back : List Char}
    (h : text.drop (region.start + 1) = front ++ region.quote.char :: back) :
    region.quote = .double ∧ Odd (Reader.trailing p.escape front) := by
  let n := region.start + 1 + front.length
  have hc : text[n]? = some region.quote.char := by
    rw [← List.getElem?_drop, h, List.getElem?_append_right le_rfl, Nat.sub_self]
    rfl
  have hn : n < text.length := (List.getElem?_eq_some_iff.mp hc).1
  have hopen : ∀ m, region.start < m → m ≤ text.length →
      (before p text m).quote = some region.quote := by
    intro m hm hmn
    exact quote_of_region? (horigin.since m hm hmn)
  have hq := hopen n (by omega) (Nat.le_of_lt hn)
  have hesc : (before p text n).escaped = true := by
    by_contra hesc
    have hready := ready_of_quote hp.sparesQuotes hc (by cases region.quote <;> rfl) hq
      (Bool.eq_false_iff.mpr hesc)
    have hnext := hopen (n + 1) (by omega) hn
    rw [before_succ hc, step_closing hp.sparesQuotes hready hq] at hnext
    cases hnext
  obtain ⟨hshield, hodd⟩ := (escaped_before hp).mp hesc
  refine ⟨?_, ?_⟩
  · cases hquote : region.quote with
    | double => rfl
    | single => simp [shielded, hq, hquote] at hshield
  · have htake : text.take n = text.take (region.start + 1) ++ front := by
      rw [List.take_add, h, List.take_left']
      rfl
    rw [htake, Reader.trailing_append] at hodd
    · exact hodd
    · rw [take_succ_of_getElem? horigin.quote, List.getLast?_concat]
      rintro _ ⟨⟩
      exact hp.sparesQuotes.escape_ne _

end Scan

namespace Tokens

open Scan

variable {p : Profile} {line : String}

/-- A line is refused for the region that is open at its end. -/
theorem ofChars_eq_error_iff {line : List Char} {e : OpenQuote} :
    let text := line.dropWhile Text.isBlank
    ofChars p line = .error e ↔ ∃ region, (run p {} text).region? = some region ∧
      e = ⟨region.quote, region.start + (line.length - text.length)⟩ := by
  intro text
  cases hq : (run p {} text).quote with
  | none => simp [ofChars, region?, text, hq]
  | some q => simp [ofChars, region?, text, hq, eq_comm]

theorem exists_ofChars_eq_ok {line : List Char}
    (h : (run p {} (line.dropWhile Text.isBlank)).region? = none) :
    ∃ tokens, ofChars p line = .ok tokens := by
  cases hline : ofChars p line with
  | ok tokens => exact ⟨tokens, rfl⟩
  | error e =>
    obtain ⟨region, hregion, -⟩ := ofChars_eq_error_iff.mp hline
    rw [h] at hregion
    cases hregion

/-- Cutting off the end and stripping the front can change places. -/
theorem dropWhile_take {f : Char → Bool} (line : List Char) (k : Nat) :
    (line.take k).dropWhile f =
      (line.dropWhile f).take (k - (line.length - (line.dropWhile f).length)) := by
  induction line generalizing k with
  | nil => simp
  | cons c rest ih =>
    have hle := (List.dropWhile_suffix f (l := rest)).length_le
    cases k with
    | zero => simp
    | succ k =>
      by_cases hc : f c = true
      · have hk : k + 1 - (rest.length + 1 - (rest.dropWhile f).length) =
            k - (rest.length - (rest.dropWhile f).length) := by omega
        simp only [List.take_succ_cons, List.dropWhile_cons, hc, if_true, List.length_cons, hk, ih]
      · simp [hc]

/-- The open region of a line that is cut off behind its blanks. -/
theorem region?_run_dropWhile_take {line : List Char} {k : Nat} (hk : k ≤ line.length) :
    let text := line.dropWhile Text.isBlank
    (run p {} ((line.take k).dropWhile Text.isBlank)).region? =
      (before p text (k - (line.length - text.length))).region? := by
  intro text
  have hle : text.length ≤ line.length :=
    (List.dropWhile_suffix Text.isBlank (l := line)).length_le
  rw [dropWhile_take]
  exact region?_run_take (by omega)

/-- A line that is cut off behind its blanks is refused for the region that is open there. -/
theorem ofChars_take_eq_error {line : List Char} {k : Nat} {region : Region} :
    let text := line.dropWhile Text.isBlank
    let lead := line.length - text.length
    lead ≤ k → k ≤ line.length → (before p text (k - lead)).region? = some region →
      ofChars p (line.take k) = .error ⟨region.quote, region.start + lead⟩ := by
  intro text lead hlead hk hregion
  have hle : text.length ≤ line.length :=
    (List.dropWhile_suffix Text.isBlank (l := line)).length_le
  refine ofChars_eq_error_iff.mpr ⟨region, (region?_run_dropWhile_take hk).trans hregion, ?_⟩
  have hlength : ((line.take k).dropWhile Text.isBlank).length = k - lead := by
    rw [dropWhile_take, List.length_take]
    change min (k - lead) text.length = k - lead
    omega
  have hoffset : (line.take k).length - (k - lead) = lead := by
    rw [List.length_take]
    omega
  rw [hlength, hoffset]

/-- The quote that a line is refused for stands at its place. The line is not refused if it is cut
off right before that place, and it is refused for the same quote if it is cut off anywhere behind
it. Under the stock profiles no later quote could have closed the region. -/
theorem openQuote_place {e : OpenQuote} (h : ofLine p line = .error e) :
    e.position < line.toList.length ∧ line.toList[e.position]? = some e.kind.char ∧
      (∃ tokens, ofLine p (String.ofList (line.toList.take e.position)) = .ok tokens) ∧
      (∀ k, e.position < k → k ≤ line.toList.length →
        ofLine p (String.ofList (line.toList.take k)) = .error e) ∧
      ∀ onWindows, p = .stock onWindows →
        (e.kind = .single → '\'' ∉ line.toList.drop (e.position + 1)) ∧
        (e.kind = .double → ∀ front back,
          line.toList.drop (e.position + 1) = front ++ '"' :: back →
            Odd (Reader.trailing p.escape front)) := by
  let text := line.toList.dropWhile Text.isBlank
  let lead := line.toList.length - text.length
  have hsuffix : text <:+ line.toList := List.dropWhile_suffix Text.isBlank
  have hle : text.length ≤ line.toList.length := hsuffix.length_le
  have htext : text = line.toList.drop lead := List.suffix_iff_eq_drop.mp hsuffix
  obtain ⟨⟨q, start, embedded⟩, hregion, he⟩ := ofChars_eq_error_iff.mp h
  have he : e = ⟨q, start + lead⟩ := he
  subst he
  rw [← before_length] at hregion
  have horigin : Origin p text text.length ⟨q, start, embedded⟩ := origin_of_region le_rfl hregion
  have hstart : start < text.length := horigin.start_lt
  have hafter : line.toList.drop (start + lead + 1) = text.drop (start + 1) := by
    rw [htext, List.drop_drop]
    congr 1
    omega
  dsimp only
  refine ⟨by omega, ?_, ?_, fun k hk hkn => ?_, ?_⟩
  · rw [Nat.add_comm, ← List.getElem?_drop, ← htext]
    exact horigin.quote
  · rw [ofLine, String.toList_ofList]
    have hclosed : (before p text (start + lead - lead)).region? = none := by
      rw [Nat.add_sub_cancel]
      exact horigin.closed
    exact exists_ofChars_eq_ok ((region?_run_dropWhile_take (by omega)).trans hclosed)
  · have hlead : lead ≤ k := by omega
    have hinside : start < k - lead := by omega
    have hend : k - lead ≤ text.length := by omega
    rw [ofLine, String.toList_ofList]
    exact ofChars_take_eq_error hlead hkn (horigin.since (k - lead) hinside hend)
  · rintro onWindows rfl
    have hp := Profile.stock_regular onWindows
    rw [hafter]
    refine ⟨?_, ?_⟩
    · rintro rfl hmem
      obtain ⟨front, back, hsplit⟩ := List.append_of_mem hmem
      cases (horigin.kept_open hp hsplit).1
    · rintro rfl front back hsplit
      exact (horigin.kept_open hp hsplit).2

/-- Quotes that are closed, escaped or in a comment stand before the open one, an escaped one
behind it. -/
theorem openQuote_place_last :
    let line := "\t 'a' \\' #'\n \"x\\\"y"
    let e : OpenQuote := ⟨.double, 13⟩
    ofLine (.stock false) line = .error e ∧ line.toList[13]? = some '"' ∧
      (∃ tokens, ofLine (.stock false) (String.ofList (line.toList.take 13)) = .ok tokens) ∧
      ofLine (.stock false) (String.ofList (line.toList.take 15)) = .error e ∧
      line.toList.drop 14 = ['x', '\\'] ++ '"' :: ['y'] ∧
      Odd (Reader.trailing '\\' ['x', '\\']) := by
  intro line e
  have hline : ofLine (.stock false) line = .error e := by decide +kernel
  have hlater : line.toList.drop 14 = ['x', '\\'] ++ '"' :: ['y'] := by decide
  obtain ⟨-, hquote, haccepted, hrefused, hopen⟩ := openQuote_place hline
  exact ⟨hline, hquote, haccepted, hrefused 15 (by decide) (by decide), hlater,
    (hopen false rfl).2 rfl _ _ hlater⟩

end Tokens

end ShellLine
