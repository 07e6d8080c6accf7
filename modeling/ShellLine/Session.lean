import ShellLine.Command
import ShellLine.Host

/-!
# Sessions

A session is a host together with what is remembered from one command to the next: the profile, the
shell in use, and the status of the last command. Its variables are its own, or else the host's. An
action changes the session and gives a value or stops at a fault; the changes made before a fault
stay.
-/

namespace ShellLine

structure Session where
  profile : Profile
  /-- The session's own variables; without them it has the host's. -/
  ownEnviron : Option Environment := none
  shell : Command := {}
  lastStatus : Int := 0
  host : Host
deriving DecidableEq, Repr

abbrev Action := EStateM Fault Session

namespace Session

def start (profile : Option Profile) (ownEnviron : Option Environment) (host : Host) : Session :=
  { profile := profile.getD host.defaultProfile, ownEnviron, host }

def environ (s : Session) : Environment :=
  s.ownEnviron.getD s.host.environ

def onWindows (s : Session) : Bool :=
  !s.profile.posixLike

def setVariable (s : Session) (name : String) (value : Option String) : Session :=
  let changed (e : Environment) : Environment :=
    match value with
    | some value => e.insert name value
    | none => e.erase name
  match s.ownEnviron with
  | some own => { s with ownEnviron := some (changed own) }
  | none => { s with host.environ := changed s.host.environ }

end Session

namespace Action

variable {α : Type}

def changeHost (f : Host → Host) : Action Unit :=
  modify fun s => { s with host := f s.host }

def record (e : Event) : Action Unit :=
  changeHost (·.record e)

def note (n : Note) : Action Unit :=
  record (.note n)

def print (text : String) : Action Unit :=
  record (.out text)

def printError (text : String) : Action Unit :=
  record (.err text)

/-- Prints a text that is not empty. -/
def printSome (put : String → Action Unit) (text : String) : Action Unit :=
  if text = "" then pure () else put text

def ofExcept (r : Except Fault α) : Action α :=
  match r with
  | .ok a => pure a
  | .error fault => throw fault

/-- Runs `close` after `body`, whether or not it stops at a fault. -/
def closing (close : Action Unit) (body : Action α) : Action α := fun s =>
  match body s with
  | .ok a t => (do close; pure a : Action α) t
  | .error fault t => (do close; throw fault : Action α) t

/-- Runs an action in a new session on the same host; only the host's changes stay. -/
def apart (body : Action α) : Action α := fun s =>
  match body (Session.start none none s.host) with
  | .ok a t => .ok a { s with host := t.host }
  | .error fault t => .error fault { s with host := t.host }

end Action

end ShellLine
