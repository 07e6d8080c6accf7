import Mathlib.Data.List.Basic
import Mathlib.Tactic.IntervalCases
import ShellLine.Text.Newline
import ShellLine.Text.Utf8

/-!
# What a process wrote, as text

Bytes that are read strictly give a text exactly when they are what that text is encoded to, so
reading does not depend on how the reader cuts bytes into pieces. Such bytes are read leniently as
the same text. Line breaks are folded in one pass, which comes to the same as one pass over the
pairs and one over the carriage returns that are left.
-/

namespace ShellLine.Text

namespace Utf8

/-- These bytes are just what is missing of the character. -/
inductive Begun.Completes (c : Char) : Begun → List UInt8 → Prop
  | last {bits low high : Nat} {b : UInt8} (hlow : low ≤ b.toNat) (hhigh : b.toNat ≤ high)
      (hc : Char.ofNat (64 * bits + (b.toNat - 0x80)) = c) : Completes c ⟨0, bits, low, high⟩ [b]
  | more {later bits low high : Nat} {b : UInt8} {missing : List UInt8} (hlow : low ≤ b.toNat)
      (hhigh : b.toNat ≤ high)
      (h : Completes c ⟨later, 64 * bits + (b.toNat - 0x80), 0x80, 0xBF⟩ missing) :
      Completes c ⟨later + 1, bits, low, high⟩ (b :: missing)

section Completes

variable {c : Char} {later bits low high : Nat} {bytes : List UInt8}

theorem Begun.Completes.exists_last
    (h : Completes c ⟨0, bits, low, high⟩ bytes) :
    ∃ b : UInt8, bytes = [b] ∧ low ≤ b.toNat ∧ b.toNat ≤ high ∧
      Char.ofNat (64 * bits + (b.toNat - 0x80)) = c := by
  cases h with
  | last hlow hhigh hc => exact ⟨_, rfl, hlow, hhigh, hc⟩

theorem Begun.Completes.exists_more
    (h : Completes c ⟨later + 1, bits, low, high⟩ bytes) :
    ∃ (b : UInt8) (missing : List UInt8), bytes = b :: missing ∧ low ≤ b.toNat ∧
      b.toNat ≤ high ∧ Completes c ⟨later, 64 * bits + (b.toNat - 0x80), 0x80, 0xBF⟩ missing := by
  cases h with
  | more hlow hhigh h => exact ⟨_, _, rfl, hlow, hhigh, h⟩

end Completes

section Pieces

variable {b : UInt8} {c : Char} {begun : Begun} {bytes : List UInt8}

theorem piecesFrom_none_ascii (h : b.toNat < 0x80) :
    piecesFrom none (b :: bytes) = some (Char.ofNat b.toNat) :: piecesFrom none bytes := by
  simp only [piecesFrom, next, start, if_pos h, List.singleton_append]

theorem piecesFrom_none_begin (h : 0x80 ≤ b.toNat) (hb : begin? b.toNat = some begun) :
    piecesFrom none (b :: bytes) = piecesFrom (some begun) bytes := by
  simp only [piecesFrom, next, start, if_neg (Nat.not_lt.mpr h), hb, List.nil_append]

theorem piecesFrom_none_bad (h : 0x80 ≤ b.toNat) (hb : begin? b.toNat = none) :
    piecesFrom none (b :: bytes) = none :: piecesFrom none bytes := by
  simp only [piecesFrom, next, start, if_neg (Nat.not_lt.mpr h), hb, List.singleton_append]

theorem Begun.Completes.piecesFrom {missing : List UInt8} (h : begun.Completes c missing)
    (rest : List UInt8) :
    piecesFrom (some begun) (missing ++ rest) = some c :: piecesFrom none rest := by
  induction h with
  | last hlow hhigh hc =>
    simp only [List.singleton_append, Utf8.piecesFrom, next, if_pos (And.intro hlow hhigh), hc]
  | more hlow hhigh h ih =>
    simp only [List.cons_append, Utf8.piecesFrom, next, if_pos (And.intro hlow hhigh),
      List.nil_append, ih]

/-- A begun character that is no bad stretch is completed. -/
theorem exists_completes {cs : List Char} (h : piecesFrom (some begun) bytes = cs.map some) :
    ∃ c cs' missing rest, cs = c :: cs' ∧ bytes = missing ++ rest ∧ begun.Completes c missing ∧
      piecesFrom none rest = cs'.map some := by
  induction bytes generalizing begun cs with
  | nil =>
    rw [piecesFrom] at h
    cases cs <;> simp at h
  | cons b bytes ih =>
    obtain ⟨later, bits, low, high⟩ := begun
    by_cases hb : low ≤ b.toNat ∧ b.toNat ≤ high
    · cases later with
      | zero =>
        simp only [piecesFrom, next, if_pos hb, List.singleton_append] at h
        cases cs with
        | nil => cases h
        | cons c cs =>
          injection h with hc hrest
          exact ⟨c, cs, [b], bytes, rfl, rfl, .last hb.1 hb.2 (Option.some.inj hc), hrest⟩
      | succ later =>
        simp only [piecesFrom, next, if_pos hb, List.nil_append] at h
        obtain ⟨c, cs', missing, rest, rfl, rfl, hc, hrest⟩ := ih h
        exact ⟨c, cs', b :: missing, rest, rfl, rfl, .more hb.1 hb.2 hc, hrest⟩
    · simp only [piecesFrom, next, if_neg hb, List.cons_append] at h
      cases cs <;> simp at h

end Pieces

section Encoding

/-- The first bytes of characters of two, three and four bytes. -/
theorem begin?_eq_some_iff {b : Nat} {begun : Begun} :
    begin? b = some begun ↔
      (∃ k, 2 ≤ k ∧ k < 32 ∧ b = k + 0xC0 ∧ begun = ⟨0, k, 0x80, 0xBF⟩) ∨
      (∃ k, k < 16 ∧ b = k + 0xE0 ∧
        begun = ⟨1, k, if k = 0 then 0xA0 else 0x80, if k = 0xD then 0x9F else 0xBF⟩) ∨
      ∃ k, k < 5 ∧ b = k + 0xF0 ∧
        begun = ⟨2, k, if k = 0 then 0x90 else 0x80, if k = 4 then 0x8F else 0xBF⟩ := by
  constructor
  · intro h
    unfold begin? at h
    split_ifs at h with h1 h2 h3 h4 h5 h6 h7 h8 <;> cases h
    · exact .inl ⟨b - 0xC0, by omega, by omega, by omega, rfl⟩
    · exact .inr (.inl ⟨0, by omega, h3, rfl⟩)
    · exact .inr (.inl ⟨0xD, by omega, h4, rfl⟩)
    · exact .inr (.inl ⟨b - 0xE0, by omega, by omega,
        by rw [if_neg (by omega), if_neg (by omega)]⟩)
    · exact .inr (.inr ⟨0, by omega, h6, rfl⟩)
    · exact .inr (.inr ⟨b - 0xF0, by omega, by omega,
        by rw [if_neg (by omega), if_neg (by omega)]⟩)
    · exact .inr (.inr ⟨4, by omega, h8, rfl⟩)
  · rintro (⟨k, hlow, hhigh, rfl, rfl⟩ | ⟨k, hk, rfl, rfl⟩ | ⟨k, hk, rfl, rfl⟩)
    · rw [begin?, if_neg (by omega), if_pos (by omega), Nat.add_sub_cancel]
    · interval_cases k <;> rfl
    · interval_cases k <;> rfl

theorem toNat_ofNat_byte {n : Nat} (h : n < 256) : (UInt8.ofNat n).toNat = n := by
  rw [UInt8.toNat_ofNat', Nat.mod_eq_of_lt h]

theorem ofNat_eq_byte {n : Nat} {b : UInt8} (h : n = b.toNat) : UInt8.ofNat n = b := by
  rw [h, UInt8.ofNat_toNat]

theorem utf8EncodeChar_ofNat {v : Nat} (h : v.isValidChar) :
    String.utf8EncodeChar (Char.ofNat v) =
      if v ≤ 127 then [UInt8.ofNat v]
      else if v ≤ 2047 then [UInt8.ofNat (v / 64 % 32 + 192), UInt8.ofNat (v % 64 + 128)]
      else if v ≤ 65535 then
        [UInt8.ofNat (v / 4096 % 16 + 224), UInt8.ofNat (v / 64 % 64 + 128),
          UInt8.ofNat (v % 64 + 128)]
      else
        [UInt8.ofNat (v / 262144 % 8 + 240), UInt8.ofNat (v / 4096 % 64 + 128),
          UInt8.ofNat (v / 64 % 64 + 128), UInt8.ofNat (v % 64 + 128)] := by
  have hv : (Char.ofNat v).val.toNat = v := by
    rw [Char.ofNat, dif_pos h]
    rfl
  simp only [String.utf8EncodeChar, hv]

theorem utf8EncodeChar_ascii {b : UInt8} (h : b.toNat < 0x80) :
    String.utf8EncodeChar (Char.ofNat b.toNat) = [b] := by
  rw [utf8EncodeChar_ofNat (.inl (by omega)), if_pos (by omega), UInt8.ofNat_toNat]

/-- One case for each number of bytes. -/
theorem exists_begin_of_utf8EncodeChar {c : Char} {b : UInt8} {rest : List UInt8}
    (h : String.utf8EncodeChar c = b :: rest) :
    (b.toNat < 0x80 ∧ rest = [] ∧ Char.ofNat b.toNat = c) ∨
      0x80 ≤ b.toNat ∧ ∃ begun, begin? b.toNat = some begun ∧ begun.Completes c rest := by
  have hv : c.toNat < 0xD800 ∨ 0xDFFF < c.toNat ∧ c.toNat < 0x110000 := c.valid
  have hc : Char.ofNat c.toNat = c := Char.ofNat_toNat c
  generalize c.toNat = v at hv hc
  subst hc
  rw [utf8EncodeChar_ofNat hv] at h
  have hlast : (UInt8.ofNat (v % 64 + 128)).toNat = v % 64 + 128 := toNat_ofNat_byte (by omega)
  have hmiddle : (UInt8.ofNat (v / 64 % 64 + 128)).toNat = v / 64 % 64 + 128 :=
    toNat_ofNat_byte (by omega)
  split_ifs at h with h1 h2 h3 <;> cases h
  · rw [toNat_ofNat_byte (by omega : v < 256)]
    exact .inl ⟨by omega, rfl, rfl⟩
  · have hfirst : (UInt8.ofNat (v / 64 % 32 + 192)).toNat = v / 64 % 32 + 192 :=
      toNat_ofNat_byte (by omega)
    have hbegin := begin?_eq_some_iff.mpr (.inl ⟨_, by omega, by omega, hfirst, rfl⟩)
    refine .inr ⟨by omega, _, hbegin, .last (by omega) (by omega) ?_⟩
    exact congrArg Char.ofNat (by omega)
  · have hfirst : (UInt8.ofNat (v / 4096 % 16 + 224)).toNat = v / 4096 % 16 + 224 :=
      toNat_ofNat_byte (by omega)
    have hbegin := begin?_eq_some_iff.mpr (.inr (.inl ⟨_, by omega, hfirst, rfl⟩))
    refine .inr ⟨by omega, _, hbegin, .more ?_ ?_ (.last (by omega) (by omega) ?_)⟩
    · split <;> omega
    · split <;> omega
    · exact congrArg Char.ofNat (by omega)
  · have hfirst : (UInt8.ofNat (v / 262144 % 8 + 240)).toNat = v / 262144 % 8 + 240 :=
      toNat_ofNat_byte (by omega)
    have hsecond : (UInt8.ofNat (v / 4096 % 64 + 128)).toNat = v / 4096 % 64 + 128 :=
      toNat_ofNat_byte (by omega)
    have hbegin := begin?_eq_some_iff.mpr (.inr (.inr ⟨_, by omega, hfirst, rfl⟩))
    refine .inr ⟨by omega, _, hbegin,
      .more ?_ ?_ (.more (by omega) (by omega) (.last (by omega) (by omega) ?_))⟩
    · split <;> omega
    · split <;> omega
    · exact congrArg Char.ofNat (by omega)

/-- The ranges leave only characters that these bytes are the encoding of. -/
theorem utf8EncodeChar_of_completes {b : UInt8} {begun : Begun} {c : Char} {rest : List UInt8}
    (hb : begin? b.toNat = some begun) (hc : begun.Completes c rest) :
    String.utf8EncodeChar c = b :: rest := by
  obtain ⟨k, hlow, hhigh, hk, rfl⟩ | ⟨k, hlt, hk, rfl⟩ | ⟨k, hlt, hk, rfl⟩ :=
    begin?_eq_some_iff.mp hb
  · obtain ⟨b₁, rfl, h1, h1', rfl⟩ := hc.exists_last
    rw [utf8EncodeChar_ofNat (.inl (by omega)), if_neg (by omega), if_pos (by omega)]
    simp only [List.cons.injEq, and_true]
    exact ⟨ofNat_eq_byte (by omega), ofNat_eq_byte (by omega)⟩
  · obtain ⟨b₁, rest, rfl, h1, h1', hc⟩ := hc.exists_more
    obtain ⟨b₂, rfl, h2, h2', rfl⟩ := hc.exists_last
    have hrange : 0x80 ≤ b₁.toNat ∧ b₁.toNat ≤ 0xBF ∧ (k = 0 → 0xA0 ≤ b₁.toNat) ∧
        (k = 0xD → b₁.toNat ≤ 0x9F) := by
      split at h1 <;> split at h1' <;> omega
    have hv : (64 * (64 * k + (b₁.toNat - 0x80)) + (b₂.toNat - 0x80)).isValidChar := by
      unfold Nat.isValidChar
      omega
    rw [utf8EncodeChar_ofNat hv, if_neg (by omega), if_neg (by omega), if_pos (by omega)]
    simp only [List.cons.injEq, and_true]
    exact ⟨ofNat_eq_byte (by omega), ofNat_eq_byte (by omega), ofNat_eq_byte (by omega)⟩
  · obtain ⟨b₁, rest, rfl, h1, h1', hc⟩ := hc.exists_more
    obtain ⟨b₂, rest, rfl, h2, h2', hc⟩ := hc.exists_more
    obtain ⟨b₃, rfl, h3, h3', rfl⟩ := hc.exists_last
    have hrange : 0x80 ≤ b₁.toNat ∧ b₁.toNat ≤ 0xBF ∧ (k = 0 → 0x90 ≤ b₁.toNat) ∧
        (k = 4 → b₁.toNat ≤ 0x8F) := by
      split at h1 <;> split at h1' <;> omega
    have hv : (64 * (64 * (64 * k + (b₁.toNat - 0x80)) + (b₂.toNat - 0x80)) +
        (b₃.toNat - 0x80)).isValidChar := by
      unfold Nat.isValidChar
      omega
    rw [utf8EncodeChar_ofNat hv, if_neg (by omega), if_neg (by omega), if_neg (by omega)]
    simp only [List.cons.injEq, and_true]
    exact ⟨ofNat_eq_byte (by omega), ofNat_eq_byte (by omega), ofNat_eq_byte (by omega),
      ofNat_eq_byte (by omega)⟩

end Encoding

section Text

theorem pieces_utf8EncodeChar_append (c : Char) (bytes : List UInt8) :
    pieces (String.utf8EncodeChar c ++ bytes) = some c :: pieces bytes := by
  obtain ⟨b, rest, h⟩ := List.exists_cons_of_ne_nil (String.utf8EncodeChar_ne_nil (c := c))
  rw [h, List.cons_append, pieces, pieces]
  obtain ⟨hb, rfl, hc⟩ | ⟨hb, begun, hbegin, hc⟩ := exists_begin_of_utf8EncodeChar h
  · rw [List.nil_append, piecesFrom_none_ascii hb, hc]
  · rw [piecesFrom_none_begin hb hbegin, hc.piecesFrom]

/-- The first piece, if it is no bad stretch, is what its bytes encode. -/
theorem exists_of_pieces_cons {b : UInt8} {bytes : List UInt8} {cs : List Char}
    (h : pieces (b :: bytes) = cs.map some) :
    ∃ c cs' rest, cs = c :: cs' ∧ b :: bytes = String.utf8EncodeChar c ++ rest ∧
      pieces rest = cs'.map some := by
  rw [pieces] at h
  obtain hb | hb := Nat.lt_or_ge b.toNat 0x80
  · rw [piecesFrom_none_ascii hb] at h
    cases cs with
    | nil => cases h
    | cons c cs =>
      injection h with hc hrest
      have hencode := utf8EncodeChar_ascii hb
      rw [Option.some.inj hc] at hencode
      exact ⟨c, cs, bytes, rfl, by rw [hencode, List.singleton_append], hrest⟩
  · cases hbegin : begin? b.toNat with
    | none =>
      rw [piecesFrom_none_bad hb hbegin] at h
      cases cs <;> simp at h
    | some begun =>
      rw [piecesFrom_none_begin hb hbegin] at h
      obtain ⟨c, cs', missing, rest, rfl, rfl, hc, hrest⟩ := exists_completes h
      have hencode := utf8EncodeChar_of_completes hbegin hc
      exact ⟨c, cs', rest, rfl, by rw [hencode, List.cons_append], hrest⟩

theorem pieces_eq_map_some_iff {bytes : List UInt8} {cs : List Char} :
    pieces bytes = cs.map some ↔ bytes = cs.flatMap String.utf8EncodeChar := by
  constructor
  · intro h
    induction cs generalizing bytes with
    | nil =>
      cases bytes with
      | nil => rfl
      | cons b bytes =>
        obtain ⟨_, _, _, hcs, -⟩ := exists_of_pieces_cons h
        cases hcs
    | cons c cs ih =>
      cases bytes with
      | nil => cases h
      | cons b bytes =>
        obtain ⟨_, _, rest, hcs, hbytes, hrest⟩ := exists_of_pieces_cons h
        cases hcs
        rw [hbytes, ih hrest, List.flatMap_cons]
  · rintro rfl
    induction cs with
    | nil => rfl
    | cons c cs ih => rw [List.flatMap_cons, pieces_utf8EncodeChar_append, ih, List.map_cons]

theorem mapM_id_eq_some_iff {α : Type} {xs : List (Option α)} {ys : List α} :
    xs.mapM id = some ys ↔ xs = ys.map some := by
  induction xs generalizing ys with
  | nil => cases ys <;> simp
  | cons x xs ih =>
    rw [List.mapM_cons]
    constructor
    · intro h
      obtain ⟨y, hy, h⟩ := Option.bind_eq_some_iff.mp h
      obtain ⟨zs, hzs, h⟩ := Option.bind_eq_some_iff.mp h
      rw [show x = some y from hy, ih.mp hzs, ← Option.some.inj h, List.map_cons]
    · intro h
      cases ys with
      | nil => cases h
      | cons y ys =>
        obtain ⟨rfl, hxs⟩ := List.cons.inj h
        rw [ih.mpr hxs]
        rfl

theorem toList_byteArray (bytes : ByteArray) : bytes.toList = bytes.data.toList := by
  have hloop (n i : Nat) (r : List UInt8) (hn : bytes.size - i = n) :
      ByteArray.toList.loop bytes i r = r.reverse ++ bytes.data.toList.drop i := by
    induction n generalizing i r with
    | zero =>
      have hi : bytes.size ≤ i := Nat.sub_eq_zero_iff_le.mp hn
      rw [ByteArray.toList.loop.eq_1, if_neg (Nat.not_lt.mpr hi),
        List.drop_eq_nil_of_le (show bytes.data.toList.length ≤ i from hi), List.append_nil]
    | succ n ih =>
      have hi : i < bytes.size := Nat.lt_of_sub_eq_succ hn
      have hdrop : bytes.data.toList.drop i = bytes.get! i :: bytes.data.toList.drop (i + 1) := by
        rw [List.drop_eq_getElem_cons hi]
        exact congrArg (· :: _) (getElem!_pos bytes.data i hi).symm
      rw [ByteArray.toList.loop.eq_1, if_pos hi, ih _ _ (by omega), List.reverse_cons,
        List.append_assoc, List.singleton_append, hdrop]
  rw [ByteArray.toList, hloop _ 0 [] rfl, List.reverse_nil, List.nil_append, List.drop_zero]

theorem encode_eq (text : String) : encode text = text.toList.flatMap String.utf8EncodeChar := by
  have htext : text.toUTF8 = (text.toList.flatMap String.utf8EncodeChar).toByteArray :=
    congrArg String.toUTF8 (String.ofList_toList (s := text)).symm
  rw [encode, htext, toList_byteArray, List.toList_data_toByteArray]

theorem strict?_eq_some_iff {bytes : List UInt8} {text : String} :
    strict? bytes = some text ↔ bytes = encode text := by
  rw [strict?, encode_eq, ← pieces_eq_map_some_iff, ← mapM_id_eq_some_iff, Option.map_eq_some_iff]
  constructor
  · rintro ⟨cs, hcs, rfl⟩
    rwa [String.toList_ofList]
  · intro h
    exact ⟨_, h, String.ofList_toList⟩

theorem strict?_eq_none_iff {bytes : List UInt8} :
    strict? bytes = none ↔ ∀ text, bytes ≠ encode text := by
  rw [Option.eq_none_iff_forall_ne_some]
  exact forall_congr' fun text => not_congr strict?_eq_some_iff

theorem lossy_encode (text : String) : lossy (encode text) = text := by
  rw [lossy, pieces_eq_map_some_iff.mpr (encode_eq text), List.map_map]
  simp

end Text

end Utf8

/-- Each carriage return that a newline follows is left out. -/
def joinPairs : List Char → List Char
  | [] => []
  | '\r' :: '\n' :: rest => '\n' :: joinPairs rest
  | c :: rest => c :: joinPairs rest

/-- The pairs first, and then the carriage returns that are left. -/
def replaceBreaks (text : String) : String :=
  String.ofList ((joinPairs text.toList).map fun c => if c = '\r' then '\n' else c)

theorem foldBreaks_eq_map (cs : List Char) :
    foldBreaks cs = (joinPairs cs).map fun c => if c = '\r' then '\n' else c := by
  fun_induction joinPairs cs with
  | case1 => rfl
  | case2 rest ih => rw [foldBreaks, ih, List.map_cons, if_neg (by decide)]
  | case3 c rest hpair ih => rw [foldBreaks.eq_3 c rest hpair, ih, List.map_cons]

theorem foldNewlines_eq_replaceBreaks (text : String) : foldNewlines text = replaceBreaks text :=
  congrArg String.ofList (foldBreaks_eq_map text.toList)

end ShellLine.Text
