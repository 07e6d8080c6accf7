import ShellLine.Proofs.DefaultShield
import ShellLine.Proofs.RunningAside

/-!
# The life of a script

What is done on a host, apart from what is only told of, is a sequence of starts, scripts made and
folders removed. A script is made before the arguments that name it are handed out, it stands until
whoever has them is done, and its folder is removed then, whether they came to a value or stopped at
a fault. So for a command that is executed the sequence is always the same three: its script, its
process and the removal.
-/

namespace ShellLine

/-- Folders can be removed, and the fresh one is not in use. -/
structure Host.Ready (h : Host) : Prop where
  removal : h.removal = none
  fresh : ∀ script ∈ h.scripts, Path.Slash.folder script.path ≠
    Path.Slash.folder (Path.Slash.join h.scratch Script.fileName)

namespace Action

variable {α : Type}

end Action

/-- What was done, in order. -/
def Journal.doings (events : List Event) : List Event :=
  events.filter (!·.isReport)

/-- What the making and removing of scripts goes by. -/
structure Grounds where
  profile : Profile
  removal : Option Fault
  scratch : String
  scripts : List Script

namespace Session

def doings (s : Session) : List Event :=
  Journal.doings s.host.journal

def grounds (s : Session) : Grounds where
  profile := s.profile
  removal := s.host.removal
  scratch := s.host.scratch
  scripts := s.host.scripts

variable (s : Session)

variable {s}

end Session

theorem Host.Ready.shelled {s : Session} (hs : s.host.Ready) : s.shelled.host.Ready := by
  have hhost := s.still_shelled.untouched
  have hremoval : s.shelled.host.removal = s.host.removal := congrArg (·.host.removal) hhost
  have hscratch : s.shelled.host.scratch = s.host.scratch := congrArg (·.host.scratch) hhost
  refine ⟨hremoval.trans hs.removal, ?_⟩
  rw [Session.scripts_shelled, hscratch]
  exact hs.fresh

namespace Run

variable {α : Type} {c : Command} {inShell : Bool} {s : Session}

section Execute

variable (aside : Bool) (o : Settings) (inShell : Bool) (argv : List String) (s : Session)

variable {o s}

end Execute

end Run

end ShellLine
