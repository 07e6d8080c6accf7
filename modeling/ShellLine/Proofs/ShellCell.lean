import Mathlib.Logic.Function.Basic
import ShellLine.Proofs.ShellWords

/-!
# The shell in use as one cell

What a session knows of its shell fits into one cell, which holds a shell or nothing. `Memory` is
that cell beside the values of the variables, and it changes by a rule of its own with every
request. Whatever requests a new session has answered, in whatever order, its shell is the one in
the cell. The default is looked up when it is stored and not again.
-/

namespace ShellLine

namespace Environment

variable (name : String)

theorem get?_cons (value : String) (bindings : List (String × String)) (other : String) :
    get? ⟨(name, value) :: bindings⟩ other =
      if other = name then some value else get? ⟨bindings⟩ other := by
  rw [get?, get?, List.lookup_cons]
  by_cases h : other = name
  · simp [h]
  · simp [h, beq_false_of_ne h]

theorem get?_erase (e : Environment) :
    (e.erase name).get? = Function.update e.get? name none := by
  funext other
  obtain ⟨bindings⟩ := e
  rw [Function.update_apply, erase]
  induction bindings with
  | nil => simp [get?]
  | cons binding bindings ih =>
    obtain ⟨key, value⟩ := binding
    rw [get?_cons]
    by_cases hkey : key = name
    · rw [List.filter_cons_of_neg (by simpa using hkey), ih, hkey]
      by_cases hother : other = name <;> simp [hother]
    · rw [List.filter_cons_of_pos (by simpa using hkey), get?_cons, ih]
      by_cases hother : other = key
      · simp [hother, hkey]
      · simp [hother]

theorem get?_insert (e : Environment) (value : String) :
    (e.insert name value).get? = Function.update e.get? name (some value) := by
  funext other
  rw [insert, get?_cons, show (⟨(e.erase name).bindings⟩ : Environment) = e.erase name from rfl,
    get?_erase, Function.update_apply, Function.update_apply]
  by_cases h : other = name <;> simp [h]

end Environment

namespace Session

variable (s : Session) (name : String) (value : Option String)

theorem setVariable_frame :
    (s.setVariable name value).profile = s.profile ∧
      (s.setVariable name value).shell = s.shell := by
  unfold setVariable
  cases s.ownEnviron <;> exact ⟨rfl, rfl⟩

theorem get?_setVariable :
    (s.setVariable name value).environ.get? = Function.update s.environ.get? name value := by
  unfold setVariable environ
  cases value with
  | some value => cases s.ownEnviron <;> exact Environment.get?_insert name _ value
  | none => cases s.ownEnviron <;> exact Environment.get?_erase name _

end Session

/-- What may be asked of the shell in use, and what may change in between. -/
inductive Request where
  | fetch
  | select (text : Option String) (force : Bool)
  | reset
  | clear
  | assign (name : String) (value : Option String)

def Request.act : Request → Action Unit
  | fetch => do let _ ← CurrentShell.fetch
  | select text force => CurrentShell.select text force
  | reset => CurrentShell.reset
  | clear => CurrentShell.clear
  | assign name value => modify (·.setVariable name value)

/-- The values of the variables, and a cell for a shell. -/
structure Memory where
  values : String → Option String
  cell : Option Shell

namespace Memory

variable (p : Profile) (m : Memory)

def default : Shell :=
  Shell.default p.posixLike m.values

/-- What a request makes of the memory. A text with an open quote makes nothing of it. -/
def after : Request → Memory
  | .fetch => { m with cell := some (m.cell.getD (m.default p)) }
  | .select text force =>
    let text := text.getD ""
    if text = "" then
      { m with cell := some (if force then m.default p else m.cell.getD (m.default p)) }
    else match Tokens.ofLine p text with
      | .error _ => m
      | .ok tokens => { m with cell := Shell.ofWords? tokens.words }
  | .reset => { m with cell := some (m.default p) }
  | .clear => { m with cell := none }
  | .assign name value => { m with values := Function.update m.values name value }

end Memory

/-- The memory of a session with this profile. -/
structure Session.Remembers (s : Session) (p : Profile) (m : Memory) : Prop where
  profile : s.profile = p
  values : s.environ.get? = m.values
  cell : s.shell? = m.cell

/-- How a session answers a request: a shell that is handed out has a program. Only an open quote
in the text for a shell is refused. Then nothing at all is changed, nor is anything if the request
leaves a shell in use alone. -/
def Request.Answered (s : Session) : Request → Prop
  | fetch => ∃ t, CurrentShell.fetch s = .ok t.shell t ∧ t.shell.program ≠ "" ∧
      (s.shell.program ≠ "" → t = s)
  | select text force =>
    match Tokens.ofLine s.profile (text.getD "") with
    | .error quote => CurrentShell.select text force s = .error (.openQuote quote) s
    | .ok _ => ∃ t, CurrentShell.select text force s = .ok () t ∧
        (text.getD "" = "" → force = false → s.shell.program ≠ "" → t = s)
  | reset => ∃ t, CurrentShell.reset s = .ok () t
  | clear => ∃ t, CurrentShell.clear s = .ok () t
  | assign name value => ∃ t, (assign name value).act s = .ok () t ∧ t.shell = s.shell

/-- No text and the empty one ask for the same. -/
theorem CurrentShell.select_eq (text : Option String) (force : Bool) :
    select text force =
      if text.getD "" = "" then select none force else choose (text.getD "") := by
  by_cases h : text.getD "" = ""
  · rw [if_pos h, select, select, h]
    rfl
  · rw [if_neg h, select]
    simp only [ne_eq, h, not_false_eq_true, if_true]

namespace Session

variable {s : Session} {p : Profile} {m : Memory}

theorem Remembers.defaulted (h : s.Remembers p m) : s.defaulted = m.default p := by
  rw [Session.defaulted, h.profile, h.values, Memory.default]

theorem Remembers.shelled (h : s.Remembers p m) :
    s.shelled.Remembers p { m with cell := some (m.cell.getD (m.default p)) } where
  profile := (congrArg (·.profile) s.still_shelled.untouched).trans h.profile
  values := (congrArg (·.environ.get?) s.still_shelled.untouched).trans h.values
  cell := by rw [s.shell?_shelled, h.cell, h.defaulted]

theorem Remembers.select_none (h : s.Remembers p m) (force : Bool) :
    ((CurrentShell.select none force).final s).Remembers p
      { m with cell := some (if force then m.default p else m.cell.getD (m.default p)) } := by
  have hdefault := s.shell?_defaultShell.trans (congrArg some h.defaulted)
  rw [Action.final_of_ok (CurrentShell.select_none force s)]
  cases force with
  | true =>
    rw [if_pos (.inl rfl)]
    exact ⟨h.profile, h.values, hdefault⟩
  | false =>
    by_cases hnone : s.shell.program = ""
    · rw [if_pos (.inr hnone), ← h.cell, s.shell?_eq_none_iff.mpr hnone]
      exact ⟨h.profile, h.values, hdefault⟩
    · have hsome : s.shell? = some ⟨_, _, hnone⟩ := Shell.of?_of_ne hnone _
      rw [if_neg (by simpa using hnone), ← h.cell, hsome]
      exact ⟨h.profile, h.values, hsome⟩

theorem Remembers.choose (h : s.Remembers p m) (text : String) :
    ((CurrentShell.choose text).final s).Remembers p (match Tokens.ofLine p text with
      | .error _ => m
      | .ok tokens => { m with cell := Shell.ofWords? tokens.words }) := by
  have hprofile := h.profile
  cases htokens : Tokens.ofLine p text with
  | error quote =>
    rw [← hprofile] at htokens
    rw [Action.final_of_error (CurrentShell.choose_of_error htokens)]
    exact h
  | ok tokens =>
    rw [← hprofile] at htokens
    rw [Action.final_of_ok (CurrentShell.choose_apply htokens)]
    exact ⟨h.profile, h.values, s.shell?_chosen text tokens⟩

/-- A request does to the session what it does to its memory. -/
theorem Remembers.act (h : s.Remembers p m) (request : Request) :
    (request.act.final s).Remembers p (m.after p request) := by
  cases request with
  | fetch =>
    have hfetch : Request.fetch.act s = .ok () s.shelled :=
      Action.bind_ok (CurrentShell.fetch_apply s)
    rw [Action.final_of_ok hfetch]
    exact h.shelled
  | select text force =>
    rw [Request.act, CurrentShell.select_eq, Memory.after]
    by_cases hempty : text.getD "" = ""
    · rw [if_pos hempty, if_pos hempty]
      exact h.select_none force
    · rw [if_neg hempty, if_neg hempty]
      exact h.choose (text.getD "")
  | reset => exact h.select_none true
  | clear => exact ⟨h.profile, h.values, rfl⟩
  | assign name value =>
    obtain ⟨hprofile, hshell⟩ := s.setVariable_frame name value
    have hvalues := s.get?_setVariable name value
    rw [h.values] at hvalues
    exact ⟨hprofile.trans h.profile, hvalues, (congrArg Command.shell? hshell).trans h.cell⟩

theorem Remembers.act_all (h : s.Remembers p m) (requests : List Request) :
    (requests.foldl (fun s request => request.act.final s) s).Remembers p
      (requests.foldl (·.after p ·) m) := by
  induction requests generalizing s m with
  | nil => exact h
  | cons request requests ih => exact ih (h.act request)

end Session

theorem Request.answered (request : Request) (s : Session) : request.Answered s := by
  cases request with
  | fetch =>
    exact ⟨s.shelled, CurrentShell.fetch_apply s, s.program_shelled_ne, s.shelled_of_ne⟩
  | select text force =>
    rw [Answered, CurrentShell.select_eq]
    by_cases hempty : text.getD "" = ""
    · rw [hempty, Builtin.ofLine_empty, if_pos rfl]
      refine ⟨_, CurrentShell.select_none force s, fun _ hforce hne => ?_⟩
      rw [if_neg (by simp [hforce, hne])]
    · rw [if_neg hempty]
      cases htokens : Tokens.ofLine s.profile (text.getD "") with
      | error quote => exact CurrentShell.choose_of_error htokens
      | ok tokens =>
        exact ⟨_, CurrentShell.choose_apply htokens, fun h => absurd h hempty⟩
  | reset => exact ⟨_, CurrentShell.select_none true s⟩
  | clear => exact ⟨_, rfl⟩
  | assign name value => exact ⟨_, rfl, (s.setVariable_frame name value).2⟩

/-- However a new session was used, its shell is the one in the cell, and it answers every
request. -/
theorem Session.remembers_after_start (profile : Option Profile) (own : Option Environment)
    (host : Host) (requests : List Request) :
    let p := profile.getD host.defaultProfile
    let m := requests.foldl (·.after p ·) ⟨(own.getD host.environ).get?, none⟩
    let s := requests.foldl (fun s request => request.act.final s) (start profile own host)
    s.Remembers p m ∧ (s.shell.program ≠ "" ↔ m.cell.isSome) ∧
      (∀ shell ∈ m.cell, s.shell.program = shell.program ∧ s.shell.args = shell.args) ∧
      ∀ request : Request, request.Answered s := by
  intro p m s
  have hstart : (start profile own host).Remembers p ⟨(own.getD host.environ).get?, none⟩ :=
    ⟨rfl, rfl, rfl⟩
  have h : s.Remembers p m := hstart.act_all requests
  refine ⟨h, ?_, fun shell hshell => ?_, fun request => request.answered s⟩
  · rw [← h.cell, ne_eq, ← s.shell?_eq_none_iff, Option.isSome_iff_ne_none]
  · exact s.shell?_eq_some_iff.mp (h.cell.trans hshell)

end ShellLine
