import ShellLine.Run
import ShellLine.Proofs.ActionTrace

/-!
# What a session goes through for a command

On its way through a command a session may take a default shell, get a script and lose it again, and
start a process. In between it stays still: nothing is started, nothing is printed, and only the
shell, the journal and the scripts change. A start adds its process to the journal and uses up one
fate. So a start between still steps is a start.
-/

namespace ShellLine

namespace Session

variable (s : Session)

/-- After the start of a process: its fate is used up. -/
def launched (launch : Launch) : Session :=
  { s with host := (s.host.record (.started launch)).dropFate }

/-- With a shell in use, the default one if there was none. -/
def shelled : Session :=
  if s.shell.program = "" then
    { s with shell := s.defaultShell }.recorded [.note (.defaultShell s.defaultShell.program)]
  else s

def scriptPath : String :=
  Path.Slash.join s.host.scratch Script.fileName

/-- With a script for a text. -/
def scripted (text : String) : Session :=
  let made : Host := s.host.addScript ⟨s.scriptPath, Text.Utf8.encode (Script.body text)⟩
  ({ s with host := made }.recorded [.scriptMade s.scriptPath]).recorded
    [.note (.scriptWritten s.scriptPath)]

/-- After an attempt to remove a folder. -/
def cleared (folder : String) : Session :=
  let tried := s.recorded [.folderRemoved folder]
  match s.host.removal with
  | none => { tried with host := tried.host.removeFolder folder }
  | some fault => if fault.isSystem then tried.recorded [.note (.folderStays folder)] else tried

/-- A removal that stops at a fault of its own leaves nothing of what came before. -/
def afterRemoval {α : Type} (r : Except Fault α) : Except Fault α :=
  match s.host.removal.filter (!·.isSystem) with
  | none => r
  | some fault => .error fault

/-- All that no execution touches. -/
def untouched : Session :=
  { s with shell := {}, host := { s.host with fates := [], scripts := [], journal := [] } }

/-- From here to `t`, nothing was started and nothing was printed. -/
structure Still (t : Session) : Prop where
  launches : t.launches = s.launches
  printed : t.printed = s.printed
  fates : t.host.fates = s.host.fates
  untouched : t.untouched = s.untouched

/-- From here to `t`, one process was started and nothing was printed. -/
structure Ran (t : Session) (launch : Launch) : Prop where
  launches : t.launches = s.launches ++ [launch]
  printed : t.printed = s.printed
  fates : t.host.fates = s.host.fates.tail
  untouched : t.untouched = s.untouched

variable {s}

theorem Still.ran {t u : Session} {launch : Launch} (h : s.Still t) (hrun : t.Ran u launch) :
    s.Ran u launch where
  launches := by rw [hrun.launches, h.launches]
  printed := hrun.printed.trans h.printed
  fates := by rw [hrun.fates, h.fates]
  untouched := hrun.untouched.trans h.untouched

theorem Ran.still {t u : Session} {launch : Launch} (hrun : s.Ran t launch) (h : t.Still u) :
    s.Ran u launch where
  launches := h.launches.trans hrun.launches
  printed := h.printed.trans hrun.printed
  fates := h.fates.trans hrun.fates
  untouched := h.untouched.trans hrun.untouched

theorem Still.trans {t u : Session} (h : s.Still t) (h' : t.Still u) : s.Still u where
  launches := h'.launches.trans h.launches
  printed := h'.printed.trans h.printed
  fates := h'.fates.trans h.fates
  untouched := h'.untouched.trans h.untouched

theorem Still.nextFate {t : Session} (h : s.Still t) : t.host.nextFate = s.host.nextFate := by
  have hlater := congrArg (·.host.laterFate) h.untouched
  change t.host.laterFate = s.host.laterFate at hlater
  rw [Host.nextFate, Host.nextFate, h.fates, hlater]

theorem Still.onWindows {t : Session} (h : s.Still t) : t.onWindows = s.onWindows :=
  congrArg (·.onWindows) h.untouched

theorem Still.scriptPath {t : Session} (h : s.Still t) : t.scriptPath = s.scriptPath :=
  congrArg (·.scriptPath) h.untouched

theorem afterRemoval_congr {t : Session} (h : t.untouched = s.untouched) {α : Type}
    (r : Except Fault α) : t.afterRemoval r = s.afterRemoval r :=
  congrArg (·.afterRemoval r) h

variable (s)

theorem still_recorded {events : List Event} (hl : Journal.launches events = [])
    (hp : Journal.printed events = []) : s.Still (s.recorded events) where
  launches := by rw [launches_recorded, hl, List.append_nil]
  printed := by rw [printed_recorded, hp, List.append_nil]
  fates := rfl
  untouched := rfl

theorem still_shelled : s.Still s.shelled := by
  unfold shelled
  split
  · exact ⟨(still_recorded _ rfl rfl).launches, (still_recorded _ rfl rfl).printed, rfl, rfl⟩
  · exact ⟨rfl, rfl, rfl, rfl⟩

theorem still_scripted (text : String) : s.Still (s.scripted text) := by
  have hadd (made : Script) : s.Still { s with host := s.host.addScript made } :=
    ⟨rfl, rfl, rfl, rfl⟩
  exact ((hadd _).trans (still_recorded _ rfl rfl)).trans (still_recorded _ rfl rfl)

theorem still_cleared (folder : String) : s.Still (s.cleared folder) := by
  have htried : s.Still (s.recorded [.folderRemoved folder]) := s.still_recorded rfl rfl
  unfold cleared
  split
  · exact htried.trans ⟨rfl, rfl, rfl, rfl⟩
  · split
    · exact htried.trans (still_recorded _ rfl rfl)
    · exact htried

theorem shell_cleared (folder : String) : (s.cleared folder).shell = s.shell := by
  unfold cleared
  split
  · rfl
  · split <;> rfl

theorem ran_launched (launch : Launch) : s.Ran (s.launched launch) launch where
  launches := Journal.launches_append _ _
  printed := (Journal.printed_append _ _).trans (List.append_nil _)
  fates := rfl
  untouched := rfl

theorem scriptContent?_scripted (text : String) :
    (s.scripted text).host.scriptContent? s.scriptPath =
      some (Text.Utf8.encode (Script.body text)) := by
  change (((⟨s.scriptPath, _⟩ : Script) :: s.host.scripts).find? _).map _ = _
  rw [List.find?_cons_of_pos (by simp)]
  rfl

end Session

end ShellLine
