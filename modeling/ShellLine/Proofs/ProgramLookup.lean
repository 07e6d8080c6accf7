import Mathlib.Data.List.Forall2
import ShellLine.Builtin
import ShellLine.Proofs.ActionTrace
import ShellLine.Proofs.NameParts
import ShellLine.Proofs.PathWalks

/-!
# The program that a name stands for

The folders of the search path and the listed extensions are the entries of a list that are not
empty, in their order. A name is put together with each folder in turn, and in each with every
extension in turn, and it stands for the first candidate that is a file. Where extensions are
listed, the one that the name has comes before them, and whatever comes again is left out. A name
with a directory part stands for its place, the absolute path, and the files are not asked.
-/

namespace ShellLine

namespace Search

theorem addNew_cons (known : List String) (e : String) (entries : List String) :
    addNew known (e :: entries) =
      addNew (if known.contains e then known else known ++ [e]) entries := rfl

/-- What is added are the entries that are not there, each where it first comes. -/
theorem addNew_eq_append (known entries : List String) :
    addNew known entries = known ++ (entries.removeAll known).eraseDups := by
  induction entries generalizing known with
  | nil => simp [addNew]
  | cons e entries ih =>
    rw [addNew_cons, ih]
    by_cases he : e ∈ known
    · have hrest : (e :: entries).removeAll known = entries.removeAll known := by
        simp [List.removeAll, he]
      rw [if_pos (by simpa using he), hrest]
    · have hrest : (e :: entries).removeAll known = e :: entries.removeAll known := by
        simp [List.removeAll, he]
      have hlater : (entries.removeAll known).filter (fun d => !d == e) =
          entries.removeAll (known ++ [e]) := by
        simp only [List.removeAll, List.filter_filter]
        refine List.filter_congr fun d _ => ?_
        by_cases hd : d = e <;> simp [hd]
      rw [if_neg (by simpa using he), hrest, List.eraseDups_cons, hlater, List.append_assoc,
        List.singleton_append]

theorem addNew_eq_eraseDups {known : List String} (h : known.eraseDups = known)
    (entries : List String) : addNew known entries = (known ++ entries).eraseDups := by
  rw [addNew_eq_append, List.eraseDups_append, h]

theorem nodup_addNew {known : List String} (h : known.Nodup) (entries : List String) :
    (addNew known entries).Nodup := by
  induction entries generalizing known with
  | nil => exact h
  | cons e entries ih =>
    rw [addNew_cons]
    apply ih
    split
    · exact h
    · rename_i he
      have hne : e ∉ known := by simpa using he
      exact List.nodup_append.mpr ⟨h, by simp, fun a ha b hb => by
        rintro rfl
        exact hne (List.mem_singleton.mp hb ▸ ha)⟩

/-- The name has a directory part: there is a separator in it, or a drive in front. -/
def Placed (onWindows : Bool) (name : String) : Prop :=
  '/' ∈ name.toList ∨
    onWindows = true ∧ ('\\' ∈ name.toList ∨ name.toList[1]? = some ':')

theorem isPlaced_eq_false_iff {onWindows : Bool} {name : String} :
    isPlaced onWindows name = false ↔ ¬ Placed onWindows name := by
  cases onWindows with
  | false =>
    have hspare : (∀ c ∈ name.toList, Path.Slash.isSep c = false) ↔ '/' ∉ name.toList := by
      simp only [Path.Slash.isSep, beq_eq_false_iff_ne]
      exact ⟨fun h hc => h _ hc rfl, fun h c hc he => h (he ▸ hc)⟩
    simp [isPlaced, Placed, Path.slash_base_eq_iff, hspare]
  | true =>
    have hspare : (∀ c ∈ name.toList, Path.Drive.isSep c = false) ↔
        '/' ∉ name.toList ∧ '\\' ∉ name.toList := by
      simp only [Path.Drive.isSep, Bool.or_eq_false_iff, beq_eq_false_iff_ne]
      constructor
      · exact fun h => ⟨fun hc => (h _ hc).2 rfl, fun hc => (h _ hc).1 rfl⟩
      · exact fun h c hc => ⟨fun he => h.2 (he ▸ hc), fun he => h.1 (he ▸ hc)⟩
    simp [isPlaced, Placed, Path.drive_base_eq_iff, hspare, and_assoc]

theorem isPlaced_iff {onWindows : Bool} {name : String} :
    isPlaced onWindows name = true ↔ Placed onWindows name := by
  rw [← Bool.not_eq_false, isPlaced_eq_false_iff, not_not]

/-- What is tried for a name without a directory part. -/
structure Plans (onWindows : Bool) (environ : Environment) (name : String) (plan : Search) :
    Prop where
  folders : Text.Lists (if onWindows then ';' else ':') ((environ.get? "PATH").getD "") plan.folders
  /-- Without listed extensions, a folder has the name itself for its only candidate. -/
  named : onWindows = false → plan.extensions.map (plan.stem ++ ·) = [name]
  listed : onWindows = true → ∃ (ext : String) (entries : List String),
    Path.Extended name.toList plan.stem.toList ext.toList ∧
    Text.Lists ';' ((environ.get? "PATHEXT").getD ".COM;.EXE;.BAT;.CMD") entries ∧
    plan.extensions = ((if ext = "" then [] else [ext]) ++ entries).eraseDups ∧
    plan.extensions.Nodup

theorem ofName_plans {onWindows : Bool} {name : String} (environ : Environment)
    (h : ¬ Placed onWindows name) :
    (ofName onWindows environ name).Plans onWindows environ name := by
  have h := isPlaced_eq_false_iff.mpr h
  cases onWindows with
  | false =>
    have hbase : Path.Slash.base name = name := by simpa [isPlaced] using h
    have hsplit := Path.splitExtension_extended (Path.slash_base_eq_iff.mp hbase)
    have hname : (Path.Slash.splitExt name).1 ++ (Path.Slash.splitExt name).2 = name := by
      rw [← String.toList_inj, String.toList_append]
      simpa [Path.Slash.splitExt] using hsplit.append_eq
    exact {
      folders := Text.lists_fields ':' _
      named := fun _ => congrArg ([·]) hname
      listed := nofun }
  | true =>
    have hbase : Path.Drive.base name = name := by simpa [isPlaced] using h
    have hsplit := Path.splitExtension_extended (Path.drive_base_eq_iff.mp hbase).1
    let ext := (Path.Drive.splitExt name).2
    let own : List String := if ext = "" then [] else [ext]
    have hown : own.eraseDups = own ∧ own.Nodup := by
      by_cases he : ext = "" <;> simp [own, he, List.eraseDups_cons]
    refine {
      folders := Text.lists_fields ';' _
      named := nofun
      listed := fun _ => ⟨ext, _, ?_, Text.lists_fields ';' _, addNew_eq_eraseDups hown.1 _,
        nodup_addNew hown.2 _⟩ }
    simpa [ofName, ext, Path.Drive.splitExt] using hsplit

section First

variable (plan : Search) (h : Host)

def candidate (folder ext : String) : String :=
  Path.Slash.join folder (plan.stem ++ ext)

/-- The earliest candidate that is a file: no folder before its own has one, nor does an extension
before its own make one there. -/
def Finds (path : String) : Prop :=
  ∃ before folder after sooner ext later,
    plan.folders = before ++ folder :: after ∧ plan.extensions = sooner ++ ext :: later ∧
    path = plan.candidate folder ext ∧ h.isFile path = true ∧
    (∀ f ∈ before, ∀ e ∈ plan.extensions, h.isFile (plan.candidate f e) = false) ∧
    ∀ e ∈ sooner, h.isFile (plan.candidate folder e) = false

def Misses : Prop :=
  ∀ f ∈ plan.folders, ∀ e ∈ plan.extensions, h.isFile (plan.candidate f e) = false

variable {plan h}

theorem find?_candidates_eq_none_iff :
    plan.candidates.find? h.isFile = none ↔ plan.Misses h := by
  simp [candidates, Misses, candidate, List.find?_eq_none]

theorem finds_of_find? {path : String} (hfind : plan.candidates.find? h.isFile = some path) :
    plan.Finds h path := by
  rw [candidates, List.find?_flatMap, List.findSome?_eq_some_iff] at hfind
  obtain ⟨before, folder, after, hfolders, hfound, hbefore⟩ := hfind
  obtain ⟨hfile, sooner, later, hexts, hsooner⟩ := List.find?_eq_some_iff_append.mp hfound
  obtain ⟨sooner', rest, hsplit, rfl, hrest⟩ := List.map_eq_append_iff.mp hexts
  obtain ⟨ext, later', rfl, rfl, rfl⟩ := List.map_eq_cons_iff.mp hrest
  refine ⟨before, folder, after, sooner', ext, later', hfolders, hsplit, rfl, hfile, ?_, ?_⟩
  · intro f hf e he
    have hnone := List.find?_eq_none.mp (hbefore f hf) _ (List.mem_map_of_mem he)
    simpa [candidate] using hnone
  · intro e he
    have hno := hsooner _ (List.mem_map_of_mem he)
    simpa [candidate] using hno

theorem join_ne_empty {dir : String} (hdir : dir ≠ "") (path : String) :
    Path.Slash.join dir path ≠ "" := by
  unfold Path.Slash.join
  split
  · rename_i hroot
    rintro rfl
    simp at hroot
  · split <;> simp [hdir]

theorem Finds.ne_empty {onWindows : Bool} {environ : Environment} {name path : String}
    (hfind : plan.Finds h path) (hplan : plan.Plans onWindows environ name) : path ≠ "" := by
  obtain ⟨before, folder, after, sooner, ext, later, hfolders, -, rfl, -⟩ := hfind
  refine join_ne_empty (hplan.folders.ne_empty ?_) _
  rw [hfolders]
  exact List.mem_append_right _ List.mem_cons_self

end First

/-- What a name stands for. -/
structure Answers (onWindows : Bool) (environ : Environment) (h : Host) (name path : String) :
    Prop where
  empty : name = "" → path = ""
  /-- Only the place itself counts, whether it is a file or not. -/
  placed : Placed onWindows name → path = Path.Slash.absolute h.cwd name
  leads : Placed onWindows name → Path.Rooted h.cwd → Path.Leads h.cwd name path
  searched : name ≠ "" → ¬ Placed onWindows name →
    ∃ plan : Search, plan.Plans onWindows environ name ∧ (plan.Finds h path ∨ path = "") ∧
      (path = "" ↔ plan.Misses h)

variable {onWindows : Bool} {environ : Environment} {h : Host} {name path : String}

theorem not_placed_empty (onWindows : Bool) : ¬ Placed onWindows "" := by
  simp [Placed]

theorem answers_empty : Answers onWindows environ h "" "" where
  empty _ := rfl
  placed hplaced := absurd hplaced (not_placed_empty onWindows)
  leads hplaced := absurd hplaced (not_placed_empty onWindows)
  searched hne := absurd rfl hne

theorem answers_of_placed (hplaced : Placed onWindows name) :
    Answers onWindows environ h name (Path.Slash.absolute h.cwd name) where
  empty he := absurd (he ▸ hplaced) (not_placed_empty onWindows)
  placed _ := rfl
  leads _ hcwd := Path.Slash.leads_absolute hcwd name
  searched _ hplain := absurd hplaced hplain

theorem answers_of_find? (hne : name ≠ "") (hplain : ¬ Placed onWindows name) :
    Answers onWindows environ h name ((found? onWindows environ h name).getD "") where
  empty he := absurd he hne
  placed hplaced := absurd hplaced hplain
  leads hplaced := absurd hplaced hplain
  searched _ _ := by
    have hplan := ofName_plans environ hplain
    refine ⟨_, hplan, ?_⟩
    cases hfind : found? onWindows environ h name with
    | none => exact ⟨.inr rfl, fun _ => find?_candidates_eq_none_iff.mp hfind, fun _ => rfl⟩
    | some path =>
      have hfinds := finds_of_find? hfind
      refine ⟨.inl hfinds, fun he => absurd he (hfinds.ne_empty hplan), fun hmiss => ?_⟩
      cases hfind.symm.trans (find?_candidates_eq_none_iff.mpr hmiss)

/-- Looking a name up only leaves a note of what came of the search. -/
theorem which_apply (onWindows : Bool) (environ : Environment) (name : String) (s : Session) :
    ∃ path notes, which onWindows environ name s = .ok path (s.recorded notes) ∧
      Journal.printed notes = [] ∧ Journal.launches notes = [] ∧
      (Placed onWindows name → notes = []) ∧
      Answers onWindows environ s.host name path := by
  rw [which, Action.get_bind]
  by_cases hne : name = ""
  · subst hne
    refine ⟨"", [], ?_, rfl, rfl, fun _ => rfl, answers_empty⟩
    rw [if_pos rfl, Session.recorded_nil]
    rfl
  · rw [if_neg hne]
    cases hplaced : isPlaced onWindows name with
    | true =>
      refine ⟨_, [], ?_, rfl, rfl, fun _ => rfl, answers_of_placed (isPlaced_iff.mp hplaced)⟩
      rw [if_pos rfl, Session.recorded_nil]
      rfl
    | false =>
      have hplain := isPlaced_eq_false_iff.mp hplaced
      have hanswers : Answers onWindows environ s.host name _ := answers_of_find? hne hplain
      rw [if_neg Bool.false_ne_true]
      cases hfind : found? onWindows environ s.host name with
      | none =>
        rw [hfind] at hanswers
        exact ⟨"", [.note (.notOnPath name)], rfl, rfl, rfl, fun h => absurd h hplain, hanswers⟩
      | some path =>
        rw [hfind] at hanswers
        exact ⟨path, [.note (.resolved name path)], rfl, rfl, rfl, fun h => absurd h hplain,
          hanswers⟩

end Search

namespace Builtin

open Search

/-- What is printed for a name. -/
def report (name path : String) : Event :=
  if path = "" then .err ("which: no " ++ name ++ " in PATH\n") else .out (path ++ "\n")

theorem printed_report (name path : String) :
    Journal.printed [report name path] = [report name path] := by
  unfold report
  split <;> rfl

theorem launches_report (name path : String) : Journal.launches [report name path] = [] := by
  unfold report
  split <;> rfl

theorem runWhich_apply (names : List String) (s : Session) :
    ∃ status events paths, runWhich names s = .ok status (s.recorded events) ∧
      List.Forall₂ (Answers s.onWindows s.environ s.host) names paths ∧
      Journal.printed events = List.zipWith report names paths ∧ Journal.launches events = [] ∧
      (status = 0 ∨ status = 1) ∧ (status = 0 ↔ "" ∉ paths) := by
  induction names generalizing s with
  | nil => exact ⟨0, [], [], by rw [Session.recorded_nil]; rfl, .nil, rfl, rfl, .inl rfl, by simp⟩
  | cons name names ih =>
    obtain ⟨path, notes, hwhich, hprinted, hlaunches, -, hpath⟩ :=
      which_apply s.onWindows s.environ name s
    obtain ⟨status, events, paths, hrest, hpaths, hreports, hstarts, hstatus, hzero⟩ :=
      ih (s.recorded (notes ++ [report name path]))
    have hhost : List.Forall₂ (Answers s.onWindows s.environ s.host) names paths :=
      hpaths.imp fun name path h => ⟨h.empty, h.placed, h.leads, h.searched⟩
    rw [Session.recorded_recorded] at hrest
    have hall : Journal.printed (notes ++ [report name path] ++ events) =
        List.zipWith report (name :: names) (path :: paths) := by
      rw [Journal.printed_append, Journal.printed_append, hprinted, printed_report, hreports]
      rfl
    have hnone : Journal.launches (notes ++ [report name path] ++ events) = [] := by
      rw [Journal.launches_append, Journal.launches_append, hlaunches, launches_report, hstarts]
      rfl
    rw [runWhich, Action.get_bind, Action.bind_ok hwhich]
    by_cases hempty : path = ""
    · refine ⟨1, _, path :: paths, ?_, .cons hpath hhost, hall, hnone, .inr rfl, ?_⟩
      · have hprint := Action.record_apply (report name path) (s.recorded notes)
        rw [Session.recorded_recorded] at hprint
        rw [report, if_pos hempty] at hprint hrest ⊢
        rw [if_pos hempty, Action.printError, Action.bind_ok hprint, Action.bind_ok hrest]
        rfl
      · simp [hempty]
    · refine ⟨status, _, path :: paths, ?_, .cons hpath hhost, hall, hnone, hstatus, ?_⟩
      · have hprint := Action.record_apply (report name path) (s.recorded notes)
        rw [Session.recorded_recorded] at hprint
        rw [report, if_neg hempty] at hprint hrest ⊢
        rw [if_neg hempty, Action.print, Action.bind_ok hprint, hrest]
      · rw [hzero, List.mem_cons, not_or]
        exact ⟨fun h => ⟨Ne.symm hempty, h⟩, And.right⟩

/-- A name stands for the first candidate that is a file; looking names up prints one report for
each in their order, and succeeds if they all stand for something. -/
theorem which_answers (s : Session) :
    (∀ (onWindows : Bool) (environ : Environment) (name : String), ∃ path notes,
      Search.which onWindows environ name s = .ok path (s.recorded notes) ∧
        Journal.printed notes = [] ∧ Journal.launches notes = [] ∧
        (Placed onWindows name → notes = []) ∧
        Answers onWindows environ s.host name path) ∧
      ∀ names, ∃ status events paths, run .which names s = .ok status (s.recorded events) ∧
        List.Forall₂ (Answers s.onWindows s.environ s.host) names paths ∧
        Journal.printed events = List.zipWith report names paths ∧
        Journal.launches events = [] ∧ (status = 0 ∨ status = 1) ∧ (status = 0 ↔ "" ∉ paths) :=
  ⟨fun onWindows environ name => which_apply onWindows environ name s,
    fun names => runWhich_apply names s⟩

/-- Places, programs of the first and of the second folder, and names that no folder has. What the
first folder has counts before the name's own extension in the second. -/
theorem which_answers_sessions :
    let s : Session := { profile := .posix, host := {
      environ := ⟨[("PATH", "/usr/bin::/bin/")]⟩
      cwd := "/home/me"
      files := ["/bin/ls"] } }
    let t : Session := { profile := .windows, host := {
      environ := ⟨[("PATH", "/tools;;/bin/"), ("PATHEXT", ".EXE;.BAT;;.EXE")]⟩
      cwd := "/work"
      files := ["/bin/run.py", "/tools/run.BAT", "/bin/make.EXE"] } }
    let names := ["../you//./run", "ls", "nope", ""]
    let programs := ["c:run", "..\\run", "run.py", "make", "nope"]
    (List.Forall₂ (Answers false s.environ s.host) names ["/home/you/run", "/bin/ls", "", ""] ∧
      (run .which names).outcome s = .ok 1 ∧
      Journal.printed ((run .which names).final s).host.journal =
        [.out "/home/you/run\n", .out "/bin/ls\n", .err "which: no nope in PATH\n",
          .err "which: no  in PATH\n"]) ∧
    List.Forall₂ (Answers true t.environ t.host) programs
        ["/work/c:run", "/work/..\\run", "/tools/run.BAT", "/bin/make.EXE", ""] ∧
      (run .which programs).outcome t = .ok 1 ∧
      Journal.printed ((run .which programs).final t).host.journal =
        [.out "/work/c:run\n", .out "/work/..\\run\n", .out "/tools/run.BAT\n",
          .out "/bin/make.EXE\n", .err "which: no nope in PATH\n"] := by
  intro s t names programs
  have hanswers (s : Session) {name path : String}
      (h : (Search.which s.onWindows s.environ name).outcome s = .ok path) :
      Answers s.onWindows s.environ s.host name path := by
    obtain ⟨answer, notes, hwhich, -, -, -, hanswer⟩ :=
      (which_answers s).1 s.onWindows s.environ name
    rw [Action.outcome, hwhich] at h
    cases h
    exact hanswer
  refine ⟨⟨?_, by decide +kernel, by decide +kernel⟩, ?_, by decide +kernel, by decide +kernel⟩
  · exact .cons (hanswers s (by decide +kernel)) <| .cons (hanswers s (by decide +kernel)) <|
      .cons (hanswers s (by decide +kernel)) <| .cons (hanswers s (by decide +kernel)) .nil
  · exact .cons (hanswers t (by decide +kernel)) <| .cons (hanswers t (by decide +kernel)) <|
      .cons (hanswers t (by decide +kernel)) <| .cons (hanswers t (by decide +kernel)) <|
      .cons (hanswers t (by decide +kernel)) .nil

end Builtin

end ShellLine
