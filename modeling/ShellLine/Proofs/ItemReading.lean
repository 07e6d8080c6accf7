import ShellLine.Proofs.Items

/-!
# Reading a line item by item

An item leaves a shorter text behind it, so a line can be read item by item until the text is used
up or a quote is found that nothing closes. What is left of the text is always a suffix of it, which
tells the place of that quote.
-/

namespace ShellLine

namespace Item

variable {p : Profile}

theorem region_rest_suffix {q : Quote} {text inner rest : List Char}
    (h : region p q text = some (inner, rest)) : rest <:+ text := by
  fun_induction region p q text generalizing inner with
  | case1 => cases h
  | case2 => cases h
  | case3 c _ d text ih =>
    obtain ⟨⟨inner', tail⟩, hr, he⟩ := Option.map_eq_some_iff.mp h
    obtain ⟨-, rfl⟩ := Prod.mk.inj he
    exact ((ih hr).trans (List.suffix_cons d text)).trans (List.suffix_cons c _)
  | case4 =>
    cases h
    exact List.suffix_cons _ _
  | case5 c text _ _ ih =>
    obtain ⟨⟨inner', tail⟩, hr, he⟩ := Option.map_eq_some_iff.mp h
    obtain ⟨-, rfl⟩ := Prod.mk.inj he
    exact (ih hr).trans (List.suffix_cons c text)

theorem left_prepend (text : List Char) (flagged : Bool) (r : Except Unclosed Word) :
    Unclosed.left Word.rest (r.map (.prepend text flagged)) = Unclosed.left Word.rest r :=
  Unclosed.left_map (fun _ => rfl) r

theorem word_left_suffix (previous : Char) (text : List Char) :
    Unclosed.left Word.rest (word p previous text) <:+ text := by
  fun_induction word p previous text with
  | case1 => exact List.nil_suffix
  | case2 => exact List.nil_suffix
  | case3 _ c _ d rest ih =>
    rw [left_prepend]
    exact (ih.trans (List.suffix_cons d rest)).trans (List.suffix_cons c _)
  | case4 _ c rest _ ih =>
    rw [left_prepend]
    exact ih.trans (List.suffix_cons c rest)
  | case5 => exact List.suffix_rfl
  | case6 _ c rest _ _ _ _ hr => exact (region_rest_suffix hr).trans (List.suffix_cons c rest)
  | case7 _ c rest _ _ ih =>
    rw [left_prepend]
    exact ih.trans (List.suffix_cons c rest)
  | case8 => exact List.suffix_rfl
  | case9 _ c rest => exact List.suffix_cons c rest
  | case10 _ c rest => exact List.suffix_cons c rest
  | case11 _ c rest _ ih =>
    rw [left_prepend]
    exact ih.trans (List.suffix_cons c rest)

/-- An item takes at least the first character; an open quote may be that character. -/
theorem read_suffix (c : Char) (rest : List Char) :
    match read p c rest with
    | .ok item => item.rest <:+ rest
    | .error e => e.text <:+ c :: rest := by
  fun_cases read p c rest with
  | case1 => exact List.nil_suffix
  | case2 _ rest => exact List.suffix_cons _ rest
  | case3 _ d rest =>
    have hw := word_left_suffix (p := p) d rest
    cases h : word p d rest with
    | error e =>
      rw [h] at hw
      exact (hw.trans (List.suffix_cons d rest)).trans (List.suffix_cons c _)
    | ok w =>
      rw [h] at hw
      exact hw.trans (List.suffix_cons d rest)
  | case4 => exact List.dropWhile_suffix _
  | case5 => exact List.suffix_rfl
  | case6 _ _ _ _ _ h => exact region_rest_suffix h
  | case7 => exact List.dropWhile_suffix _
  | case8 => exact List.suffix_rfl
  | case9 => exact List.suffix_rfl
  | case10 =>
    have hw := word_left_suffix (p := p) c rest
    cases h : word p c rest with
    | error e =>
      rw [h] at hw
      exact hw.trans (List.suffix_cons c rest)
    | ok w =>
      rw [h] at hw
      exact hw

theorem read_rest_length {c : Char} {rest : List Char} {item : Item}
    (h : read p c rest = .ok item) : item.rest.length < (c :: rest).length := by
  have hs := read_suffix (p := p) c rest
  rw [h] at hs
  exact Nat.lt_succ_of_le hs.length_le

theorem read_unclosed_length {c : Char} {rest : List Char} {e : Unclosed}
    (h : read p c rest = .error e) : e.text.length ≤ (c :: rest).length := by
  have hs := read_suffix (p := p) c rest
  rw [h] at hs
  exact hs.length_le

end Item

variable (p : Profile)

/-- The items of a text, unless one of them is never closed. -/
def Profile.items : List Char → Except Unclosed (List Item)
  | [] => .ok []
  | c :: rest =>
    match _h : Item.read p c rest with
    | .error e => .error e
    | .ok item => (items item.rest).map (item :: ·)
termination_by text => text.length
decreasing_by exact Item.read_rest_length _h

/-- The tokens in the items of a text, and whether one of them leaves the line to a shell. -/
def Profile.reading (text : List Char) : Except Unclosed (List (List Char) × Bool) :=
  (p.items text).map fun items => (items.filterMap (·.token), items.any (·.flagged))

/-- What a line reads as, from its first character that is not a blank. -/
def Profile.itemTokens (line : String) : Except OpenQuote Tokens :=
  match p.reading (line.toList.dropWhile Text.isBlank) with
  | .error e => .error ⟨e.quote, line.toList.length - e.text.length⟩
  | .ok (words, flagged) => .ok ⟨words.map String.ofList, flagged && !words.isEmpty⟩

variable {p}

@[simp] theorem reading_nil : p.reading [] = .ok ([], false) := by
  simp [Profile.reading, Profile.items, Except.map]

theorem reading_unclosed {c : Char} {rest : List Char} {e : Unclosed}
    (h : Item.read p c rest = .error e) : p.reading (c :: rest) = .error e := by
  rw [Profile.reading, Profile.items]
  split
  · rename_i e' he
    rw [h] at he
    cases he
    rfl
  · rename_i item hi
    rw [h] at hi
    cases hi

theorem reading_cons {c : Char} {rest : List Char} {item : Item}
    (h : Item.read p c rest = .ok item) :
    p.reading (c :: rest) = (p.reading item.rest).map fun r =>
      (item.token.toList ++ r.1, item.flagged || r.2) := by
  rw [Profile.reading, Profile.items]
  split
  · rename_i e he
    rw [h] at he
    cases he
  · rename_i item' hi
    rw [h] at hi
    cases hi
    rw [Profile.reading]
    cases p.items item.rest with
    | error e => rfl
    | ok items => cases ht : item.token <;> simp [Except.map, ht]

theorem reading_blank {c : Char} (hc : p.role c = .blank) (rest : List Char) :
    p.reading (c :: rest) = p.reading rest := by
  rw [reading_cons (Item.read_blank hc rest)]
  cases p.reading rest <;> rfl

/-- Items are read from the front, so what holds of a text follows from what its first item
leaves. -/
theorem reading_induction {motive : List Char → Prop} (nil : motive [])
    (unclosed : ∀ c rest e, Item.read p c rest = .error e → motive (c :: rest))
    (item : ∀ c rest item, Item.read p c rest = .ok item → motive item.rest → motive (c :: rest))
    (text : List Char) : motive text := by
  fun_induction p.items text with
  | case1 => exact nil
  | case2 c rest e he => exact unclosed c rest e he
  | case3 c rest i hi ih => exact item c rest i hi ih

theorem reading_unclosed_length {text : List Char} {e : Unclosed}
    (h : p.reading text = .error e) : e.text.length ≤ text.length := by
  induction text using reading_induction (p := p) generalizing e with
  | nil =>
    rw [reading_nil] at h
    cases h
  | unclosed c rest e' he =>
    rw [reading_unclosed he] at h
    cases h
    exact Item.read_unclosed_length he
  | item c rest item hi ih =>
    rw [reading_cons hi] at h
    cases hr : p.reading item.rest with
    | error e' =>
      rw [hr] at h
      cases h
      exact Nat.le_trans (ih hr) (Nat.le_of_lt (Item.read_rest_length hi))
    | ok r =>
      rw [hr] at h
      cases h

end ShellLine
