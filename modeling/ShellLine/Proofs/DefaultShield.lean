import Mathlib.Data.List.Forall2
import ShellLine.Proofs.AlikeSessions
import ShellLine.Proofs.ShellCell

/-!
# A profile of its own shields a session

A session that was given a profile does not ask for the default one. Its history is a list of deeds,
with the default profile of the host replaced before and between them. Take the replacements out,
and every deed comes to the same and leaves the same to be seen: what happened on the host, the
folder, the status, and the shell but for the text of a default one. A shell is also displayed with
the default profile where no other is named, and this alone follows the replacements.
-/

namespace ShellLine

open ShellLine.Action

/-- A use of a session. -/
inductive Deed where
  | line (text : String)
  | enter (text : String)
  | builtin (b : Builtin) (args : List String)
  | execute (aside : Bool) (o : Run.Settings) (c : Command)
  | run (aside : Bool) (o : Run.Settings) (text : String)
  | argv (text : String) (inShell : Bool)
  | ask (request : Request)
  | defaultShell
  | remember (status : Int)

inductive Answer where
  | done
  | status (status : Int)
  | result (result : Result)
  | words (words : List String)

theorem Session.Alike.setVariable {s t : Session} (h : s.Alike t) (name : String)
    (value : Option String) : (s.setVariable name value).Alike (t.setVariable name value) := by
  obtain ⟨shell, q, hshell, rfl⟩ := h
  refine ⟨shell, q, ?_, ?_⟩
  · rw [(s.setVariable_frame name value).2]
    exact hshell
  · unfold Session.setVariable Session.under
    cases s.ownEnviron <;> rfl

theorem Request.shielded_act (request : Request) : Shielded request.act := by
  cases request with
  | fetch => exact InStep.bind CurrentShell.fetch_inStep fun _ _ _ => .pure rfl
  | select text force => exact CurrentShell.shielded_select text force
  | reset => exact CurrentShell.shielded_select none true
  | clear => exact CurrentShell.shielded_clear
  | assign name value => exact .modify fun _ _ hst => hst.setVariable name value

namespace Deed

def act : Deed → Action Answer
  | line text => do
    return .status (← Line.execute text)
  | enter text => do
    Line.enter text
    return .done
  | builtin b args => do
    return .status (← b.run args)
  | execute aside o c => do
    return .result (← if aside then Run.executeAside o c else Run.execute o c)
  | run aside o text => do
    return .result (← if aside then Run.lineAside o text else Run.line o text)
  | argv text inShell => do
    let c ← Run.readLine text
    return .words (← Run.withArgv c inShell pure)
  | ask request => do
    request.act
    return .done
  | defaultShell => do
    return .words (← get).defaultShell.tokens
  | remember status => do
    modify fun s => { s with lastStatus := status }
    return .done

theorem shielded_act (d : Deed) : Shielded d.act := by
  cases d with
  | line text => exact .bind (Line.shielded_execute text) fun _ => .pure _
  | enter text => exact .bind (Line.shielded_enter text) fun _ => .pure _
  | builtin b args => exact .bind (b.shielded_run args) fun _ => .pure _
  | execute aside o c =>
    cases aside with
    | false => exact .bind (Run.shielded_execute o c) fun _ => .pure _
    | true => exact .bind (Run.shielded_executeAside o c) fun _ => .pure _
  | run aside o text =>
    cases aside with
    | false => exact .bind (.bind (Run.shielded_readLine text) fun c =>
        Run.shielded_execute o c) fun _ => .pure _
    | true => exact .bind (.bind (Run.shielded_readLine text) fun c =>
        Run.shielded_executeAside o c) fun _ => .pure _
  | argv text inShell =>
    exact .bind (Run.shielded_readLine text) fun c =>
      .bind (Run.shielded_withArgv c inShell fun _ => .pure _) fun _ => .pure _
  | ask request => exact .bind request.shielded_act fun _ => .pure _
  | defaultShell =>
    exact .read (fun s t hst => by rw [hst.defaultShell.tokens]) fun _ => .pure _
  | remember status =>
    exact .bind (.modify fun _ _ hst => hst.map_lastStatus status) fun _ => .pure _

end Deed

/-- A deed, or a new default profile for the host. -/
inductive Happening where
  | deed (deed : Deed)
  | replaced (q : Profile)

namespace Happening

def isDeed : Happening → Bool
  | deed _ => true
  | replaced _ => false

/-- What each deed comes to, and the session after it. -/
def course (s : Session) : List Happening → List (Except Fault Answer × Session)
  | [] => []
  | .deed d :: rest => (d.act.outcome s, d.act.final s) :: course (d.act.final s) rest
  | .replaced q :: rest => course (s.under q) rest

end Happening

/-- What is seen of a session: all that happened, and its shell but for the text. -/
structure View where
  journal : List Event
  folder : String
  lastStatus : Int
  program : String
  args : List String
  needsShell : Bool
  tokens : List String
  display : Profile → String

def Session.view (s : Session) : View where
  journal := s.host.journal
  folder := s.host.cwd
  lastStatus := s.lastStatus
  program := s.shell.program
  args := s.shell.args
  needsShell := s.shell.needsShell
  tokens := s.shell.tokens
  display := fun p => s.shell.display p

theorem Session.Alike.view {s t : Session} (h : s.Alike t) : s.view = t.view := by
  obtain ⟨shell, q, hshell, rfl⟩ := h
  have he := hshell.eq_but_text
  generalize shell.text = text at he
  subst he
  rfl

theorem Action.Shielded.outcome_final {α : Type} {a : Action α} (h : Shielded a) {s t : Session}
    (hst : s.Alike t) : a.outcome s = a.outcome t ∧ (a.final s).Alike (a.final t) := by
  have hends := h s t hst
  unfold outcome final
  generalize a s = r at hends
  generalize a t = r' at hends
  cases hends with
  | ok hx huv => exact ⟨congrArg _ hx, huv⟩
  | error huv => exact ⟨rfl, huv⟩

namespace Happening

/-- Alike after the same deed, with the same answer. Only one of the two sessions sees what is
replaced in between. -/
theorem course_alike (history : List Happening) {s t : Session} (h : s.Alike t) :
    List.Forall₂ (fun x y => x.1 = y.1 ∧ x.2.Alike y.2)
      (course s (history.filter isDeed)) (course t history) := by
  induction history generalizing s t with
  | nil => exact .nil
  | cons happening history ih =>
    cases happening with
    | deed d =>
      have hd := d.shielded_act.outcome_final h
      exact .cons hd (ih hd.2)
    | replaced q =>
      exact ih (h.under q)

end Happening

/-- In a session with a profile of its own, replacing the default profile changes no answer and
nothing that is seen afterwards. -/
theorem Session.undisturbed_after_start (p : Profile) (own : Option Environment) (host : Host)
    (q : Profile) (history : List Happening) :
    List.Forall₂
      (fun x y => x.1 = y.1 ∧ x.2.view = y.2.view ∧ x.2.shell.Alike y.2.shell)
      (Happening.course (start (some p) own host) (history.filter Happening.isDeed))
      (Happening.course (start (some p) own { host with defaultProfile := q }) history) := by
  have hstart : (start (some p) own host).Alike
      (start (some p) own { host with defaultProfile := q }) :=
    (Alike.refl _).under q
  refine (Happening.course_alike history hstart).imp ?_
  rintro x y ⟨hanswer, halike⟩
  exact ⟨hanswer, halike.view, halike.shell⟩

theorem Session.args_defaultShell (s : Session) :
    s.defaultShell.args = ["/c"] ∨ s.defaultShell.args = ["-c"] := by
  unfold defaultShell
  split
  · exact .inl rfl
  · exact .inr rfl

/-- A chosen shell, too, is displayed with the default profile. -/
theorem Session.not_forall_display_eq :
    ¬ ∀ (p : Profile) (own : Option Environment) (host : Host) (q : Profile)
      (history : List Happening),
      List.Forall₂
        (fun x y => x.2.shell.display x.2.host.defaultProfile =
          y.2.shell.display y.2.host.defaultProfile ∨ x.2.shell.Defaulted)
        (Happening.course (start (some p) own host) (history.filter Happening.isDeed))
        (Happening.course (start (some p) own { host with defaultProfile := q }) history) := by
  intro h
  cases h .posix none {} .windows [.deed (.ask (.select (some "\"my shell\" -x") false))] with
  | cons hx _ =>
    obtain hx | ⟨s, hs⟩ := hx
    · revert hx
      decide +kernel
    · have hargs := s.args_defaultShell
      rw [← hs] at hargs
      revert hargs
      decide +kernel

end ShellLine
