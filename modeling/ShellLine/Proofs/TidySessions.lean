import ShellLine.Proofs.LoopTurns
import ShellLine.Proofs.ScriptLifetime

/-!
# No script is left over

Whatever a session is used for, what is done on its host is a sequence of starts in which a script
is made only right before the starts that are given it, and its folder is removed right after them.
Actions in a row keep this, also where one of them stops at a fault; builtins do nothing at all. So
after every step of a session, and after every run of the loop, the scripts are those of before.
Where the shell is POSIX-like none is made in between.
-/

namespace ShellLine

open ShellLine.Action

/-- Starts, alone or between a script and the removal of its folder. -/
inductive Journal.Tidy (onWindows : Bool) : List Event → Prop
  | nil : Tidy onWindows []
  | started (launch : Launch) {events : List Event} (h : Tidy onWindows events) :
      Tidy onWindows (.started launch :: events)
  | script (hw : onWindows = true) (path : String) (launches : List Launch) {events : List Event}
      (h : Tidy onWindows events) :
      Tidy onWindows (.scriptMade path :: (launches.map .started ++
        .folderRemoved (Path.Slash.folder path) :: events))

namespace Journal

variable {onWindows : Bool} {events later : List Event}

theorem Tidy.append (h : Tidy onWindows events) (hl : Tidy onWindows later) :
    Tidy onWindows (events ++ later) := by
  induction h with
  | nil => exact hl
  | started launch _ ih => exact .started launch ih
  | script hw path launches _ ih =>
    rw [List.cons_append, List.append_assoc, List.cons_append]
    exact .script hw path launches ih

theorem tidy_starts (launches : List Launch) : Tidy onWindows (launches.map .started) := by
  induction launches with
  | nil => exact .nil
  | cons launch launches ih => exact .started launch ih

end Journal

/-- From one host to another, everything that was made has been removed again. -/
structure Host.Tidied (onWindows : Bool) (h h' : Host) : Prop where
  removal : h'.removal = h.removal
  scratch : h'.scratch = h.scratch
  scripts : h'.scripts = h.scripts
  doings : ∃ more, Journal.doings h'.journal = Journal.doings h.journal ++ more ∧
    Journal.Tidy onWindows more

namespace Host

variable {onWindows : Bool} {h h' h'' : Host}

theorem Tidied.ready (ht : h.Tidied onWindows h') (hr : h.Ready) : h'.Ready where
  removal := ht.removal.trans hr.removal
  fresh := by
    rw [ht.scripts, ht.scratch]
    exact hr.fresh

theorem Tidied.trans (ht : h.Tidied onWindows h') (ht' : h'.Tidied onWindows h'') :
    h.Tidied onWindows h'' where
  removal := ht'.removal.trans ht.removal
  scratch := ht'.scratch.trans ht.scratch
  scripts := ht'.scripts.trans ht.scripts
  doings := by
    obtain ⟨more, hmore, htidy⟩ := ht.doings
    obtain ⟨more', hmore', htidy'⟩ := ht'.doings
    exact ⟨more ++ more', by rw [hmore', hmore, List.append_assoc], htidy.append htidy'⟩

end Host

/-- The same grounds, and nothing done but starts. -/
def Session.Starts (s t : Session) : Prop :=
  t.grounds = s.grounds ∧ ∃ launches : List Launch, t.doings = s.doings ++ launches.map .started

/-- What builtins and choices leave as it is. -/
def Session.business (s : Session) : Grounds × List Event :=
  (s.grounds, s.doings)

namespace Session

variable {s t u : Session}

theorem starts_of_business (h : t.business = s.business) : s.Starts t := by
  obtain ⟨hgrounds, hdoings⟩ := Prod.mk.inj h
  exact ⟨hgrounds, [], by rw [List.map_nil, List.append_nil, hdoings]⟩

/-- From one session to another, with the profile kept and nothing left over. -/
structure Tidied (s t : Session) : Prop where
  profile : t.profile = s.profile
  host : s.host.Tidied s.onWindows t.host

theorem Tidied.trans (h : s.Tidied t) (h' : t.Tidied u) : s.Tidied u where
  profile := h'.profile.trans h.profile
  host := by
    have hhost := h'.host
    rw [onWindows, h.profile] at hhost
    exact h.host.trans hhost

theorem Starts.tidied (h : s.Starts t) : s.Tidied t := by
  obtain ⟨hgrounds, launches, hdoings⟩ := h
  exact {
    profile := congrArg Grounds.profile hgrounds
    host := {
      removal := congrArg Grounds.removal hgrounds
      scratch := congrArg Grounds.scratch hgrounds
      scripts := congrArg Grounds.scripts hgrounds
      doings := ⟨_, hdoings, Journal.tidy_starts launches⟩ } }

theorem tidied_of_business (h : t.business = s.business) : s.Tidied t :=
  (starts_of_business h).tidied

end Session

namespace Action

variable {α β : Type}

/-- Leaves nothing over, also at a fault. -/
def Tidies (a : Action α) : Prop :=
  ∀ s : Session, s.host.Ready → s.Tidied (a.final s)

theorem Keeps.tidies {a : Action α} (h : Keeps Session.business a) : Tidies a :=
  fun s _ => Session.tidied_of_business (h s)

namespace Tidies

theorem pure (x : α) : Tidies (pure x : Action α) :=
  (Keeps.pure x).tidies

theorem throw (fault : Fault) : Tidies (throw fault : Action α) :=
  (Keeps.throw fault).tidies

theorem get : Tidies get :=
  Keeps.get.tidies

theorem bind {a : Action α} {f : α → Action β} (ha : Tidies a) (hf : ∀ x, Tidies (f x)) :
    Tidies (a >>= f) := by
  intro s hs
  have hfirst := ha s hs
  rcases final_bind a f s with ⟨x, -, h⟩ | h
  · rw [h]
    exact hfirst.trans (hf x _ (hfirst.host.ready hs))
  · rw [h]
    exact hfirst

end Tidies

variable {γ : Type} {view : Session → γ}

end Action

namespace Run

variable {α : Type} {c : Command}

end Run

namespace Line

end Line

namespace Loop

end Loop

/-- A step of a session: a deed in it or in a new session on its host, a run of the loop, and what
is set from outside. -/
inductive Move where
  | deed (deed : Deed)
  | apart (deed : Deed)
  | loop (reads : List Read)
  | choose (shell : Command)
  | replace (q : Profile)

namespace Move

def next : Move → Session → Session
  | deed d, s => d.act.final s
  | apart d, s => (Action.apart d.act).final s
  | loop reads, s => (Loop.run s reads).session
  | choose shell, s => { s with shell }
  | replace q, s => s.under q

def after (s : Session) (moves : List Move) : Session :=
  moves.foldl (fun t move => move.next t) s

/-- Whether the step goes by a profile whose shells are given scripts. -/
def onWindows (s : Session) : Move → Bool
  | apart _ => (Session.start none none s.host).onWindows
  | _ => s.onWindows

end Move

end ShellLine
