import ShellLine.Proofs.Running

/-!
# The two ways to execute a command

A command is executed by one who waits for its process, or aside. Both go the same way up to the
output: they start the same process from the same shell, with the same script around it, and the
sessions they leave differ in nothing but a note. Only what the process wrote is taken differently.
One who waits folds its line breaks and stops at bytes that are no text; aside it is taken as it is.
-/

namespace ShellLine

/-- What a fate comes to for one who does not wait for the process. -/
def Fate.replyAside (argv : List String) (fate : Fate) : Except Fault Result :=
  match fate.ended with
  | .error fault => .error fault
  | .ok none => .ok ⟨127, "", argv.headD "" ++ ": command not found\n"⟩
  | .ok (some e) => .ok ⟨e.status, Text.Utf8.lossy e.out, Text.Utf8.lossy e.err⟩

/-- Waited for, or aside. -/
def Fate.replyBy : Bool → List String → Fate → Except Fault Result
  | false => Fate.reply
  | true => Fate.replyAside

namespace Session

/-- All but the notes. -/
def unnoted (s : Session) : Session :=
  { s with host.journal := s.host.journal.filter fun
      | .note _ => false
      | _ => true }

theorem unnoted_cleared (s : Session) (folder : String) :
    (s.cleared folder).unnoted = (s.unnoted.cleared folder).unnoted := by
  have hremoval : s.unnoted.host.removal = s.host.removal := rfl
  unfold cleared
  rw [hremoval]
  cases s.host.removal with
  | none => simp [unnoted, recorded, Host.removeFolder]
  | some fault => cases h : fault.isSystem <;> simp [unnoted, recorded, h]

/-- Either the result stands, or both are lost to the same fault of the removal. -/
theorem afterRemoval_cases (s : Session) {α : Type} :
    (∀ r : Except Fault α, s.afterRemoval r = r) ∨
      ∃ fault ∈ s.host.removal, fault.isSystem = false ∧
        ∀ r : Except Fault α, s.afterRemoval r = .error fault := by
  unfold afterRemoval
  cases hremoval : s.host.removal with
  | none => exact .inl fun _ => rfl
  | some fault =>
    cases hsystem : fault.isSystem with
    | true => exact .inl fun _ => by simp [Option.filter, hsystem]
    | false => exact .inr ⟨fault, rfl, hsystem, fun _ => by simp [Option.filter, hsystem]⟩

/-- A script goes with its folder. -/
theorem scripts_cleared {s t : Session} (text : String) (hremoval : t.host.removal = none)
    (hscripts : t.host.scripts = (s.scripted text).host.scripts) :
    (t.cleared (Path.Slash.folder s.scriptPath)).host.scripts ⊆ s.host.scripts := by
  intro script hscript
  have hcleared : (t.cleared (Path.Slash.folder s.scriptPath)).host.scripts =
      t.host.scripts.filter
        (Path.Slash.folder ·.path ≠ Path.Slash.folder s.scriptPath) := by
    rw [cleared, hremoval]
    rfl
  rw [hcleared, hscripts, List.mem_filter] at hscript
  obtain ⟨hmem, hfolder⟩ := hscript
  obtain rfl | hmem := List.mem_cons.mp hmem
  · simp at hfolder
  · exact hmem

theorem scripts_shelled (s : Session) : s.shelled.host.scripts = s.host.scripts := by
  unfold shelled
  split <;> rfl

end Session

namespace Run

variable {o : Settings} {c : Command} {inShell : Bool}

def attendAside (o : Settings) (inShell : Bool) (argv : List String) : Action Result := do
  Action.note (.running argv inShell true)
  match ← start o argv with
  | none => return notFound argv
  | some ended =>
    return ⟨ended.status, Text.Utf8.lossy ended.out, Text.Utf8.lossy ended.err⟩

def attendBy : Bool → Settings → Bool → List String → Action Result
  | false => attend
  | true => attendAside

def executeBy : Bool → Settings → Command → Action Result
  | false => execute
  | true => executeAside

/-- The session that attending to a process leaves. -/
def attended (o : Settings) (inShell aside : Bool) (argv : List String) (s : Session) : Session :=
  (s.recorded [.note (.running argv inShell aside)]).launched (launch o argv s)

theorem unnoted_attended (o : Settings) (inShell : Bool) (argv : List String) (s : Session) :
    (attended o inShell false argv s).unnoted = (attended o inShell true argv s).unnoted := by
  simp [attended, Session.unnoted, Session.launched, Session.recorded, Host.record, Host.dropFate]

theorem attended_ran (o : Settings) (inShell aside : Bool) (argv : List String) (s : Session) :
    s.Ran (attended o inShell aside argv s) (launch o argv s) :=
  (s.still_recorded rfl rfl).ran (Session.ran_launched _ _)

theorem attendBy_apply (aside : Bool) (o : Settings) (inShell : Bool) (argv : List String)
    (s : Session) :
    attendBy aside o inShell argv s =
      Action.ofExcept (s.host.nextFate.replyBy aside argv) (attended o inShell aside argv s) := by
  cases aside with
  | false => exact attend_apply o inShell argv s
  | true =>
    have hstart := start_apply o argv (s.recorded [.note (.running argv inShell true)])
    change _ = Action.ofExcept s.host.nextFate.ended (attended o inShell true argv s) at hstart
    rw [attendBy, attendAside, Action.bind_ok (Action.note_apply _ s), Fate.replyBy,
      Fate.replyAside]
    cases hfate : s.host.nextFate.ended with
    | error fault =>
      rw [hfate] at hstart
      exact Action.bind_error hstart
    | ok ended =>
      rw [hfate] at hstart
      rw [Action.bind_ok hstart]
      cases ended <;> rfl

theorem executeBy_of_hasWork (aside : Bool) (hw : hasWork c (o.usesShell c) = true) :
    executeBy aside o c = withArgv c (o.usesShell c) (attendBy aside o (o.usesShell c)) := by
  cases aside with
  | false => exact execute_of_hasWork rfl hw
  | true =>
    rw [executeBy, executeAside, if_pos hw]
    rfl

theorem executeBy_of_idle (aside : Bool) (hw : hasWork c (o.usesShell c) = false) (s : Session) :
    executeBy aside o c s = .ok { status := 1 } s := by
  cases aside with
  | false => exact execute_of_idle hw s
  | true =>
    rw [executeBy, executeAside, if_neg (by simp [hw])]
    rfl

/-- A command with work starts one process, in the same way either way. -/
theorem exists_run (hw : hasWork c (o.usesShell c) = true) (s : Session) :
    ∃ (launch : Launch) (after : Bool → Session)
      (seen : Except Fault Result → Except Fault Result),
      launch.folder = o.folder ∧ launch.environ = o.environ ∧ (seen = id ∨ seen = s.afterRemoval) ∧
      (after false).unnoted = (after true).unnoted ∧
      ∀ aside,
        executeBy aside o c s =
          Action.ofExcept (seen (s.host.nextFate.replyBy aside launch.argv)) (after aside) ∧
        s.Ran (after aside) launch ∧
        (s.host.removal = none → (after aside).host.scripts ⊆ s.host.scripts) := by
  cases hs : o.usesShell c with
  | false =>
    refine ⟨launch o (c.program :: c.args) s, (attended o false · (c.program :: c.args) s), id,
      rfl, rfl, .inl rfl, unnoted_attended _ _ _ _, fun aside =>
        ⟨?_, attended_ran _ _ _ _ _, fun _ => List.Subset.refl _⟩⟩
    rw [executeBy_of_hasWork aside hw, hs]
    exact attendBy_apply aside o false (c.program :: c.args) s
  | true =>
    have hstill := s.still_shelled
    have hrun (aside : Bool) := (executeBy_of_hasWork aside hw).trans (by rw [hs])
    let words := s.shelled.shell.program :: s.shelled.shell.args
    cases hp : s.onWindows with
    | false =>
      let argv := words ++ [c.text]
      refine ⟨launch o argv s.shelled, (attended o true · argv s.shelled), id, rfl, rfl, .inl rfl,
        unnoted_attended _ _ _ _, fun aside => ⟨?_, hstill.ran (attended_ran _ _ _ _ _),
          fun _ => Session.scripts_shelled s ▸ List.Subset.refl _⟩⟩
      rw [hrun, withArgv_shell, hp, if_neg Bool.false_ne_true, attendBy_apply, hstill.nextFate]
      rfl
    | true =>
      let scripted := s.shelled.scripted c.text
      let argv := words ++ [s.shelled.scriptPath]
      let folder := Path.Slash.folder s.shelled.scriptPath
      have hscripted := hstill.trans (s.shelled.still_scripted c.text)
      have hran (aside : Bool) : s.Ran (attended o true aside argv scripted)
          (launch o argv scripted) := hscripted.ran (attended_ran _ _ _ _ _)
      refine ⟨launch o argv scripted,
        fun aside => (attended o true aside argv scripted).cleared folder, s.afterRemoval, rfl, rfl,
        .inr rfl, ?_, fun aside => ⟨?_, (hran aside).still (Session.still_cleared _ _), ?_⟩⟩
      · rw [Session.unnoted_cleared, unnoted_attended, ← Session.unnoted_cleared]
      · have hduring := Script.during_apply c.text
          (fun path => attendBy aside o true (words ++ [path]))
          (attendBy_apply aside o true argv scripted)
        rw [Session.afterRemoval_congr (hran aside).untouched, hscripted.nextFate] at hduring
        rw [hrun, withArgv_shell, hp, if_pos rfl]
        exact hduring
      · intro hnone
        have hkept : (attended o true aside argv scripted).host.removal = s.host.removal :=
          congrArg (·.host.removal) (hran aside).untouched
        have hscripts := Session.scripts_cleared (s := s.shelled) c.text (hkept.trans hnone) rfl
        rwa [Session.scripts_shelled] at hscripts

/-- The two results of a process with these arguments, by its fate. -/
inductive Pair (argv : List String) :
    Fate → Except Fault Result → Except Fault Result → Prop
  | notFound : Pair argv (.fails .notFound)
      (.ok ⟨127, "", argv.headD "" ++ ": command not found\n"⟩)
      (.ok ⟨127, "", argv.headD "" ++ ": command not found\n"⟩)
  | failed {fault : Fault} (h : fault ≠ .notFound) :
      Pair argv (.fails fault) (.error fault) (.error fault)
  | text (status : Int) (out err : String) :
      Pair argv (.exits status (Text.Utf8.encode out) (Text.Utf8.encode err))
        (.ok ⟨status, Text.replaceBreaks out, Text.replaceBreaks err⟩) (.ok ⟨status, out, err⟩)
  | noText {status : Int} {out err : List UInt8}
      (h : (∀ text, out ≠ Text.Utf8.encode text) ∨ ∀ text, err ≠ Text.Utf8.encode text) :
      Pair argv (.exits status out err) (.error .undecodable)
        (.ok ⟨status, Text.Utf8.lossy out, Text.Utf8.lossy err⟩)

theorem pair_reply (argv : List String) (fate : Fate) :
    Pair argv fate (fate.replyBy false argv) (fate.replyBy true argv) := by
  have hmeans := fate.means_reply argv
  rw [Fate.replyBy, Fate.replyBy]
  generalize fate.reply argv = r at hmeans ⊢
  cases hmeans with
  | notFound => exact .notFound
  | @failed fault h =>
    have haside : (Fate.fails fault).replyAside argv = .error fault := by
      cases fault <;> first | rfl | exact absurd rfl h
    rw [haside]
    exact .failed h
  | text status out err =>
    simp only [Fate.replyAside, Fate.ended, Text.Utf8.lossy_encode]
    exact .text status out err
  | noText h => exact .noText h

/-- What a command comes to if it is waited for, and if it is executed aside. -/
structure Agreement (o : Settings) (c : Command) (s : Session) (r r' : Except Fault Result)
    (t u : Session) : Prop where
  waited : execute o c s = Action.ofExcept r t
  aside : executeAside o c s = Action.ofExcept r' u
  same : t.unnoted = u.unnoted
  scripts : s.host.removal = none → t.host.scripts ⊆ s.host.scripts
  /-- Without work nothing is started. -/
  idle : hasWork c (o.usesShell c) = false →
    t = s ∧ u = s ∧ r = .ok ⟨1, "", ""⟩ ∧ r' = .ok ⟨1, "", ""⟩
  /-- With work the same process is started. Only a fault that no removal should stop at, met when
  the folder of a script is removed, comes before both results. -/
  started : hasWork c (o.usesShell c) = true →
    ∃ (launch : Launch) (p p' : Except Fault Result),
      launch.folder = o.folder ∧ launch.environ = o.environ ∧ s.Ran t launch ∧ s.Ran u launch ∧
      Pair launch.argv s.host.nextFate p p' ∧
      ((r = p ∧ r' = p') ∨
        ∃ fault ∈ s.host.removal, fault.isSystem = false ∧ r = .error fault ∧ r' = .error fault)

theorem exists_agreement (o : Settings) (c : Command) (s : Session) :
    ∃ r r' t u, Agreement o c s r r' t u := by
  cases hw : hasWork c (o.usesShell c) with
  | false =>
    exact ⟨.ok ⟨1, "", ""⟩, .ok ⟨1, "", ""⟩, s, s, {
      waited := executeBy_of_idle false hw s
      aside := executeBy_of_idle true hw s
      same := rfl
      scripts := fun _ => List.Subset.refl _
      idle := fun _ => ⟨rfl, rfl, rfl, rfl⟩
      started := fun h => absurd (hw.symm.trans h) nofun }⟩
  | true =>
    obtain ⟨launch, after, seen, hfolder, henviron, hseen, hsame, hafter⟩ := exists_run hw s
    obtain ⟨hwaited, hran, hscripts⟩ := hafter false
    obtain ⟨haside, hran', -⟩ := hafter true
    refine ⟨_, _, after false, after true, {
      waited := hwaited
      aside := haside
      same := hsame
      scripts := hscripts
      idle := fun h => absurd (hw.symm.trans h) nofun
      started := fun _ => ⟨launch, _, _, hfolder, henviron, hran, hran', pair_reply _ _, ?_⟩ }⟩
    obtain rfl | rfl := hseen
    · exact .inl ⟨rfl, rfl⟩
    · obtain hstands | ⟨fault, hfault, hsystem, hlost⟩ := s.afterRemoval_cases
      · exact .inl ⟨hstands _, hstands _⟩
      · exact .inr ⟨fault, hfault, hsystem, hlost _, hlost _⟩

end Run

end ShellLine
