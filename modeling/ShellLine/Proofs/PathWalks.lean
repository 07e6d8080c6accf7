import Mathlib.Data.List.TakeWhile
import ShellLine.Path.Slash

/-!
# Walking along a path

The parts of a path are what its slashes leave between them, less what is empty. They are walked one
after the other: a dot stays, two dots leave the innermost folder, which does nothing at the root,
and any other part enters. The walk begins at the root if the path does, and otherwise in a folder,
which is walked to first. The absolute path of the place is that root with the folders that were
entered and not left again; what exists on the host is not asked.
-/

namespace ShellLine

namespace Text

/-- The entries of a list with separators between them, less those that are empty. -/
def Lists (sep : Char) (text : String) (entries : List String) : Prop :=
  ∃ pieces : List (List Char), [sep].intercalate pieces = text.toList ∧
    (∀ piece ∈ pieces, sep ∉ piece) ∧ entries = (pieces.filter (· ≠ [])).map String.ofList

theorem split_ne_nil (sep : Char) (cs : List Char) : split sep cs ≠ [] := by
  cases cs with
  | nil => exact List.cons_ne_nil _ _
  | cons c cs =>
    rw [split]
    split
    · exact List.cons_ne_nil _ _
    · split <;> exact List.cons_ne_nil _ _

theorem intercalate_split (sep : Char) (cs : List Char) :
    [sep].intercalate (split sep cs) = cs := by
  induction cs with
  | nil => rfl
  | cons c cs ih =>
    rw [split]
    by_cases hc : c = sep
    · rw [if_pos hc, List.intercalate_cons_of_ne_nil (split_ne_nil sep cs), ih, hc]
      rfl
    · rw [if_neg hc]
      cases hsplit : split sep cs with
      | nil => exact absurd hsplit (split_ne_nil sep cs)
      | cons first rest =>
        rw [hsplit] at ih
        cases rest with
        | nil => simpa using ih
        | cons second rest => simpa [List.intercalate_cons_cons] using ih

theorem spare_of_mem_split {sep : Char} {cs piece : List Char} (h : piece ∈ split sep cs) :
    sep ∉ piece := by
  induction cs generalizing piece with
  | nil =>
    rw [split, List.mem_singleton] at h
    simp [h]
  | cons c cs ih =>
    rw [split] at h
    split at h
    · obtain rfl | h := List.mem_cons.mp h
      · simp
      · exact ih h
    · rename_i hc
      cases hsplit : split sep cs with
      | nil =>
        rw [hsplit, List.mem_singleton] at h
        simp [h, Ne.symm hc]
      | cons first rest =>
        rw [hsplit] at h ih
        obtain rfl | h := List.mem_cons.mp h
        · exact List.not_mem_cons_of_ne_of_not_mem (Ne.symm hc) (ih List.mem_cons_self)
        · exact ih (List.mem_cons_of_mem _ h)

theorem lists_fields (sep : Char) (text : String) : Lists sep text (fields sep text) :=
  ⟨split sep text.toList, intercalate_split sep _, fun _ => spare_of_mem_split, rfl⟩

theorem Lists.ne_empty {sep : Char} {text entry : String} {entries : List String}
    (h : Lists sep text entries) (hmem : entry ∈ entries) : entry ≠ "" := by
  obtain ⟨pieces, -, -, rfl⟩ := h
  obtain ⟨piece, hpiece, rfl⟩ := List.mem_map.mp hmem
  intro hempty
  have hnil : piece = [] := by
    have hlist := congrArg String.toList hempty
    simpa using hlist
  simp [hnil] at hpiece

theorem split_append_cons (sep : Char) (front back : List Char) :
    split sep (front ++ sep :: back) = split sep front ++ split sep back := by
  induction front with
  | nil => simp [split]
  | cons c front ih =>
    by_cases hc : c = sep
    · simp [split, hc, ih]
    · cases hsplit : split sep front with
      | nil => exact absurd hsplit (split_ne_nil sep front)
      | cons first rest => simp [split, hc, ih, hsplit]

end Text

namespace Path

/-- From the folders of a trail, the innermost of which comes first, these parts lead to others. -/
inductive Walk : List String → List String → List String → Prop
  | arrived (trail : List String) : Walk trail [] trail
  | stays {trail parts there : List String} (h : Walk trail parts there) :
      Walk trail ("." :: parts) there
  | leaves {trail parts there : List String} (h : Walk trail.tail parts there) :
      Walk trail (".." :: parts) there
  | enters {trail parts there : List String} {part : String} (hdot : part ≠ ".")
      (hdots : part ≠ "..") (h : Walk (part :: trail) parts there) :
      Walk trail (part :: parts) there

def Rooted (text : String) : Prop :=
  "/".toList <+: text.toList

/-- Exactly two slashes in front are a root of their own. -/
def root (text : String) : String :=
  if text.toList.takeWhile (· = '/') = ['/', '/'] then "//" else "/"

/-- The place where a path leads, for one who is in a folder. -/
inductive Leads (folder path : String) : String → Prop
  | fromRoot {parts there : List String} (h : Rooted path) (hparts : Text.Lists '/' path parts)
      (hwalk : Walk [] parts there) :
      Leads folder path (root path ++ "/".intercalate there.reverse)
  | fromFolder {folders parts there : List String} (h : ¬ Rooted path)
      (hfolders : Text.Lists '/' folder folders) (hparts : Text.Lists '/' path parts)
      (hwalk : Walk [] (folders ++ parts) there) :
      Leads folder path (root folder ++ "/".intercalate there.reverse)

namespace Slash

theorem startsWith_iff_rooted {text : String} : text.startsWith "/" = true ↔ Rooted text :=
  String.startsWith_string_iff

theorem push_dots {kept : List (List Char)} (h : ['.', '.'] ∉ kept) :
    push true kept ['.', '.'] = kept.tail := by
  cases kept with
  | nil => rfl
  | cons last earlier =>
    have hlast : last ≠ ['.', '.'] := fun he => h (he ▸ List.mem_cons_self)
    simp [push, hlast]

/-- The trail has no two dots in it, so there always is a folder to leave. -/
theorem walk_foldl_push (pieces : List (List Char)) {kept : List (List Char)}
    (h : ['.', '.'] ∉ kept) :
    Walk (kept.map String.ofList) ((pieces.filter (· ≠ [])).map String.ofList)
      ((pieces.foldl (push true) kept).map String.ofList) := by
  induction pieces generalizing kept with
  | nil => exact .arrived _
  | cons piece pieces ih =>
    rw [List.foldl_cons]
    by_cases hempty : piece = []
    · have hpush : push true kept piece = kept := by simp [push, hempty]
      rw [List.filter_cons_of_neg (by simp [hempty]), hpush]
      exact ih h
    rw [List.filter_cons_of_pos (by simp [hempty]), List.map_cons]
    by_cases hdot : piece = ['.']
    · have hpush : push true kept piece = kept := by simp [push, hdot]
      rw [hpush, hdot]
      exact .stays (ih h)
    by_cases hdots : piece = ['.', '.']
    · rw [hdots, push_dots h]
      refine .leaves ?_
      rw [← List.map_tail]
      exact ih fun hmem => h (List.mem_of_mem_tail hmem)
    · have hpush : push true kept piece = piece :: kept := by simp [push, hempty, hdot, hdots]
      have hne {cs : List Char} (hcs : piece ≠ cs) : String.ofList piece ≠ String.ofList cs :=
        fun he => hcs (String.ofList_injective he)
      rw [hpush]
      exact .enters (hne hdot) (hne hdots)
        (ih (List.not_mem_cons_of_ne_of_not_mem (Ne.symm hdots) h))

theorem root_ne_nil (text : String) : (root text).toList ≠ [] := by
  unfold root
  split <;> decide

theorem takeWhile_of_not_rooted {cs : List Char} (h : ¬ ['/'] <+: cs) :
    cs.takeWhile (· = '/') = [] := by
  cases cs with
  | nil => rfl
  | cons c cs =>
    have hc : c ≠ '/' := by
      rintro rfl
      exact h ⟨cs, rfl⟩
    simp [hc]

theorem replicate_rootSlashes {text : String} (h : Rooted text) :
    List.replicate (rootSlashes text.toList) '/' = (root text).toList := by
  unfold Rooted at h
  unfold root
  generalize text.toList = cs at h
  fun_cases rootSlashes cs with
  | case1 rest => simp
  | case2 rest hthird =>
    have hrest : rest.takeWhile (· = '/') = [] := takeWhile_of_not_rooted fun ⟨more, he⟩ =>
      hthird more he.symm
    simp [hrest]
  | case3 rest _ hsecond =>
    have hrest : rest.takeWhile (· = '/') = [] := takeWhile_of_not_rooted fun ⟨more, he⟩ =>
      hsecond more he.symm
    simp [hrest]
  | case4 _ _ _ hnone =>
    obtain ⟨rest, rfl⟩ := h
    cases hnone rest rfl

variable {folder path : String}

theorem join_of_rooted (h : Rooted path) : join folder path = path :=
  if_pos (startsWith_iff_rooted.mpr h)

theorem endsWith_slash_iff {text : String} :
    text.endsWith "/" = true ↔ ['/'] <:+ text.toList := by
  rw [String.endsWith, String.Slice.endsWith_string_iff, String.copy_toSlice]
  rfl

/-- A slash stands between the folder and the path under it. -/
theorem join_of_not_rooted (hfolder : Rooted folder) (h : ¬ Rooted path) :
    (∃ front, folder.toList = front ++ ['/'] ∧
      (join folder path).toList = front ++ '/' :: path.toList) ∨
    ¬ ['/'] <:+ folder.toList ∧
      (join folder path).toList = folder.toList ++ '/' :: path.toList := by
  have hne : folder ≠ "" := by
    rintro rfl
    simp [Rooted] at hfolder
  unfold join
  rw [if_neg ((not_congr startsWith_iff_rooted).mpr h)]
  by_cases hlast : ['/'] <:+ folder.toList
  · obtain ⟨front, hfront⟩ := hlast
    left
    rw [if_pos (.inr (endsWith_slash_iff.mpr ⟨front, hfront⟩)), String.toList_append, ← hfront]
    exact ⟨front, rfl, by rw [List.append_assoc, List.singleton_append]⟩
  · right
    rw [if_neg (not_or.mpr ⟨hne, (not_congr endsWith_slash_iff).mpr hlast⟩), String.toList_append,
      String.toList_append, List.append_assoc]
    exact ⟨hlast, rfl⟩

theorem fields_join (hfolder : Rooted folder) (h : ¬ Rooted path) :
    Text.fields '/' (join folder path) = Text.fields '/' folder ++ Text.fields '/' path := by
  unfold Text.fields
  obtain ⟨front, hfront, hjoin⟩ | ⟨-, hjoin⟩ := join_of_not_rooted hfolder h
  · rw [hjoin, hfront, Text.split_append_cons, Text.split_append_cons]
    simp [Text.split]
  · rw [hjoin, Text.split_append_cons, List.filter_append, List.map_append]

theorem root_join (hfolder : Rooted folder) (h : ¬ Rooted path) :
    root (join folder path) = root folder := by
  have hslashes : (join folder path).toList.takeWhile (· = '/') =
      folder.toList.takeWhile (· = '/') := by
    obtain ⟨front, hfront, hjoin⟩ | ⟨hlast, hjoin⟩ := join_of_not_rooted hfolder h
    · rw [hjoin, hfront, List.append_cons, List.takeWhile_append, takeWhile_of_not_rooted h,
        List.append_nil]
      split
      · rename_i hall
        exact ((List.takeWhile_prefix _).eq_of_length hall).symm
      · rfl
    · rw [hjoin, List.takeWhile_append, if_neg]
      intro hall
      have hall := List.takeWhile_eq_self_iff.mp ((List.takeWhile_prefix _).eq_of_length hall)
      have hne : folder.toList ≠ [] := hfolder.ne_nil (by decide)
      have hslash : folder.toList.getLast hne = '/' := by
        simpa using hall _ (List.getLast_mem hne)
      have hcut := List.dropLast_concat_getLast hne
      rw [hslash] at hcut
      exact hlast ⟨_, hcut⟩
  rw [root, hslashes, root]

theorem rooted_join (hfolder : Rooted folder) (path : String) : Rooted (join folder path) := by
  by_cases h : Rooted path
  · rwa [join_of_rooted h]
  · unfold Rooted at hfolder ⊢
    obtain ⟨front, hfront, hjoin⟩ | ⟨-, hjoin⟩ := join_of_not_rooted hfolder h
    · rw [hfront] at hfolder
      rw [hjoin, List.append_cons]
      exact hfolder.trans (List.prefix_append _ _)
    · rw [hjoin]
      exact hfolder.trans (List.prefix_append _ _)

/-- The normal form of a rooted text is the root with the trail of its parts. -/
theorem normal_of_rooted {text : String} (h : Rooted text) :
    ∃ there, Walk [] (Text.fields '/' text) there ∧
      normal text = root text ++ "/".intercalate there.reverse := by
  have hslashes := replicate_rootSlashes h
  have hrooted : (rootSlashes text.toList != 0) = true := by
    rw [bne_iff_ne]
    intro hzero
    rw [hzero] at hslashes
    exact root_ne_nil text hslashes.symm
  let kept := (Text.split '/' text.toList).foldl (push true) []
  have hwalk : Walk [] (Text.fields '/' text) (kept.map String.ofList) :=
    walk_foldl_push (Text.split '/' text.toList) List.not_mem_nil
  refine ⟨_, hwalk, ?_⟩
  have hne : (root text).toList ++ ['/'].intercalate kept.reverse ≠ [] :=
    List.append_ne_nil_of_left_ne_nil (root_ne_nil text) _
  rw [normal, normalChars]
  simp only [hrooted, hslashes]
  rw [if_neg hne, ← String.toList_inj]
  simp [String.toList_intercalate, kept]

theorem leads_absolute (hfolder : Rooted folder) (path : String) :
    Leads folder path (absolute folder path) := by
  by_cases h : Rooted path
  · obtain ⟨there, hwalk, hnormal⟩ := normal_of_rooted h
    rw [absolute, join_of_rooted h, hnormal]
    exact .fromRoot h (Text.lists_fields '/' path) hwalk
  · obtain ⟨there, hwalk, hnormal⟩ := normal_of_rooted (rooted_join hfolder path)
    rw [fields_join hfolder h] at hwalk
    rw [absolute, hnormal, root_join hfolder h]
    exact .fromFolder h (Text.lists_fields '/' folder) (Text.lists_fields '/' path) hwalk

/-- Two slashes in front stay, and nothing is above the root. -/
example : absolute "//a" "../../b" = "//b" := by decide +kernel

end Slash

end Path

end ShellLine
