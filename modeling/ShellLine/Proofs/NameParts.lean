import Mathlib.Data.List.TakeWhile
import ShellLine.Search

/-!
# A name by its parts

A name that carries no folder has no separator, nor a drive, so its last part is all of it. Such a
name is a stem and an extension put together again. The extension begins at the last dot, but a dot
with nothing except dots before it begins none; so a name of dots alone, or with its only dots in
front, has no extension, and one that ends in a dot has a dot for its extension.
-/

namespace ShellLine.Path

variable {isSep : Char → Bool}

theorem lastPart_of_spare {path : List Char} (h : ∀ c ∈ path, isSep c = false) :
    lastPart isSep path = path := by
  have hall : path.reverse.takeWhile (fun c => !isSep c) = path.reverse :=
    List.takeWhile_eq_self_iff.mpr fun c hc => by simp [h c (List.mem_reverse.mp hc)]
  rw [lastPart, hall, List.reverse_reverse]

theorem leading_of_spare {path : List Char} (h : ∀ c ∈ path, isSep c = false) :
    leading isSep path = [] := by
  have hcut := leading_append_lastPart isSep path
  rw [lastPart_of_spare h] at hcut
  exact List.append_left_eq_self.mp hcut

theorem spare_of_mem_lastPart {path : List Char} {c : Char} (h : c ∈ lastPart isSep path) :
    isSep c = false := by
  have hc := List.mem_takeWhile_imp (List.mem_reverse.mp h)
  simpa using hc

theorem lastPart_append_cons {before part : List Char} {sep : Char} (hsep : isSep sep = true)
    (h : ∀ c ∈ part, isSep c = false) : lastPart isSep (before ++ sep :: part) = part := by
  have hpart : ∀ c ∈ part.reverse, (!isSep c) = true := fun c hc => by
    simp [h c (List.mem_reverse.mp hc)]
  rw [lastPart, List.reverse_append, List.reverse_cons, List.append_assoc,
    List.takeWhile_append_of_pos hpart, List.singleton_append,
    List.takeWhile_cons_of_neg (by simp [hsep]), List.append_nil, List.reverse_reverse]

/-- A name as a stem and an extension, which may be empty. -/
inductive Extended (name : List Char) : List Char → List Char → Prop
  | dotted {stem tail : List Char} (hname : name = stem ++ '.' :: tail) (htail : '.' ∉ tail)
      (hstem : ∃ c ∈ stem, c ≠ '.') : Extended name stem ('.' :: tail)
  | plain (h : ∀ before after, name = before ++ '.' :: after → ∀ c ∈ before, c = '.') :
      Extended name name []

theorem Extended.append_eq {name stem ext : List Char} (h : Extended name stem ext) :
    stem ++ ext = name := by
  cases h with
  | dotted hname => exact hname.symm
  | plain => exact List.append_nil name

theorem exists_last_dot {text : List Char} (h : '.' ∈ text) :
    ∃ before tail, text = before ++ '.' :: tail ∧ '.' ∉ tail := by
  obtain ⟨tail, before, htext, htail⟩ := List.eq_append_cons_of_mem (List.mem_reverse.mpr h)
  refine ⟨before.reverse, tail.reverse, ?_, by simpa using htail⟩
  have hback := congrArg List.reverse htext
  simpa using hback

theorem splitExtension_extended {name : List Char} (h : ∀ c ∈ name, isSep c = false) :
    Extended name (splitExtension isSep name).1 (splitExtension isSep name).2 := by
  have hcut := List.takeWhile_append_dropWhile (p := (· == '.')) (l := name)
  unfold splitExtension
  rw [lastPart_of_spare h, leading_of_spare h]
  dsimp only
  generalize hdots : name.takeWhile (· == '.') = dots at hcut ⊢
  generalize hbody : name.dropWhile (· == '.') = body at hcut ⊢
  have hdot : ∀ c ∈ dots, c = '.' := by
    intro c hc
    have hc := List.mem_takeWhile_imp (hdots ▸ hc)
    simpa using hc
  by_cases hmem : '.' ∈ body
  · obtain ⟨before, tail, rfl, htail⟩ := exists_last_dot hmem
    have hext : lastPart (· == '.') (before ++ '.' :: tail) = tail :=
      lastPart_append_cons rfl fun c hc => by
        have hne : c ≠ '.' := fun he => htail (he ▸ hc)
        simpa using hne
    rw [if_pos (by simp), hext, List.nil_append, List.length_append, Nat.add_sub_cancel,
      List.take_left']
    · refine .dotted (by rw [← hcut, List.append_assoc]) htail ?_
      cases before with
      | nil =>
        have hfirst := List.head?_dropWhile_not (· == '.') name
        rw [hbody] at hfirst
        simp at hfirst
      | cons c before =>
        have hfirst := List.head?_dropWhile_not (· == '.') name
        rw [hbody] at hfirst
        exact ⟨c, by simp, by simpa using hfirst⟩
    · rfl
  · rw [if_neg (by simpa using hmem)]
    refine .plain fun before after hname c hc => ?_
    rw [← hcut] at hname
    obtain ⟨more, -, hbody⟩ | ⟨more, hdots, -⟩ := List.append_eq_append_iff.mp hname
    · exact absurd (hbody ▸ List.mem_append_right _ List.mem_cons_self) hmem
    · exact hdot c (hdots ▸ List.mem_append_left _ hc)

/-- Dots in front begin no extension, and a dot at the end is one. -/
example : splitExtension (· == '/') ['.', '.', 'x'] = (['.', '.', 'x'], []) := by decide

example : splitExtension (· == '/') ['a', '.'] = (['a'], ['.']) := by decide

theorem slash_base_eq_iff {name : String} :
    Slash.base name = name ↔ ∀ c ∈ name.toList, Slash.isSep c = false := by
  rw [Slash.base, ← String.toList_inj, String.toList_ofList]
  refine ⟨fun h c hc => ?_, lastPart_of_spare⟩
  rw [← h] at hc
  exact spare_of_mem_lastPart hc

theorem driveLength_of_spare {cs : List Char} (h : ∀ c ∈ cs, Drive.isSep c = false) :
    Drive.driveLength cs = if cs[1]? = some ':' then 2 else 0 := by
  match cs with
  | [] => rfl
  | [_] => rfl
  | a :: b :: rest =>
    have ha : Drive.isSep a = false := h a List.mem_cons_self
    simp [Drive.driveLength, ha]

/-- Its last part is all of a name that has no separator in it and no drive in front. -/
theorem drive_base_eq_iff {name : String} :
    Drive.base name = name ↔
      (∀ c ∈ name.toList, Drive.isSep c = false) ∧ name.toList[1]? ≠ some ':' := by
  rw [Drive.base, ← String.toList_inj, String.toList_ofList]
  constructor
  · intro h
    have hspare : ∀ c ∈ name.toList, Drive.isSep c = false := fun c hc => by
      rw [← h] at hc
      exact spare_of_mem_lastPart hc
    refine ⟨hspare, fun hcolon => ?_⟩
    have hdrop : ∀ c ∈ name.toList.drop 2, Drive.isSep c = false := fun c hc =>
      hspare c (List.mem_of_mem_drop hc)
    rw [driveLength_of_spare hspare, if_pos hcolon, lastPart_of_spare hdrop] at h
    have hlength := congrArg List.length h
    have htwo := (List.getElem?_eq_some_iff.mp hcolon).1
    rw [List.length_drop] at hlength
    omega
  · rintro ⟨hspare, hcolon⟩
    rw [driveLength_of_spare hspare, if_neg hcolon, List.drop_zero, lastPart_of_spare hspare]

end ShellLine.Path
