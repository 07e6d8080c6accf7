import ShellLine.Builtin
import ShellLine.Proofs.ActionTrace

/-!
# What no builtin touches

A builtin prints and notes, changes the folder, and sees to the shell; all else that a session shows
it leaves alone. So no builtin starts a process. Each of them is put together from actions that keep
such a view. Changing the folder is the exception: it puts a whole host in place, so there it counts
that the new host is the old one but for its folder.
-/

namespace ShellLine

open ShellLine.Action

theorem Host.enter_eq {h h' : Host} {path : String} (he : h.enter path = .ok h') :
    ∃ cwd, h' = { h with cwd } := by
  unfold Host.enter at he
  dsimp only at he
  split at he
  · cases he
  · split at he
    · cases he
    · split at he
      · cases he
        exact ⟨_, rfl⟩
      · cases he

section Kept

variable {γ : Type} {view : Session → γ} (hv : Session.Unmoved view)
include hv

namespace CurrentShell

theorem keeps_useDefault : Keeps view useDefault :=
  .modify fun s => hv.shell s s.defaultShell

theorem keeps_ensure : Keeps view ensure := by
  refine .bind .get fun s => ?_
  split
  · exact .bind (keeps_useDefault hv) fun _ => .bind .get fun _ => keeps_note hv _
  · exact .pure _

theorem keeps_fetch : Keeps view fetch :=
  .bind (keeps_ensure hv) fun _ => .bind .get fun _ => .pure _

theorem keeps_choose (text : String) : Keeps view (choose text) := by
  refine .bind .get fun s => ?_
  split
  · exact .throw _
  · exact .bind (.modify fun s => hv.shell s _) fun _ => keeps_note hv _

theorem keeps_select (text : Option String) (force : Bool) : Keeps view (select text force) := by
  unfold select
  dsimp only
  split
  · exact keeps_choose hv _
  · refine .bind .get fun s => ?_
    split
    · exact keeps_useDefault hv
    · exact .pure _

end CurrentShell

theorem Search.keeps_which (onWindows : Bool) (environ : Environment) (name : String) :
    Keeps view (Search.which onWindows environ name) := by
  refine .bind .get fun s => ?_
  dsimp only
  split
  · exact .pure _
  · split
    · exact .pure _
    · split
      · exact .bind (keeps_note hv _) fun _ => .pure _
      · exact .bind (keeps_note hv _) fun _ => .pure _

namespace Builtin

theorem keeps_runCd (args : List String) : Keeps view (runCd args) := by
  intro s
  have hreport (text : String) : Keeps view (do printError text; return (1 : Int)) :=
    .bind (keeps_printError hv text) fun _ => .pure 1
  rw [runCd, final, get_bind]
  cases h : s.host.enter (args.headD ((s.environ.get? "HOME").getD "/")) with
  | ok host =>
    obtain ⟨cwd, rfl⟩ := Host.enter_eq h
    exact hv.cwd s cwd
  | error fault =>
    cases fault with
    | notFound => exact hreport _ s
    | notAFolder => exact hreport _ s
    | _ => rfl

theorem keeps_runExit (args : List String) : Keeps view (runExit args) := by
  unfold runExit
  split
  · exact .throw _
  · split
    · exact .throw _
    · exact .bind (keeps_printError hv _) fun _ => .throw _

theorem keeps_runWhich (names : List String) : Keeps view (runWhich names) := by
  induction names with
  | nil => exact .pure _
  | cons name names ih =>
    refine .bind .get fun s => .bind (Search.keeps_which hv _ _ name) fun path => ?_
    split
    · exact .bind (keeps_printError hv _) fun _ => .bind ih fun _ => .pure _
    · exact .bind (keeps_print hv _) fun _ => ih

theorem keeps_chooseShell (args : List String) : Keeps view (chooseShell args) := by
  unfold chooseShell
  split
  · exact .pure _
  · exact CurrentShell.keeps_select hv _ _
  · exact .bind .get fun _ => CurrentShell.keeps_select hv _ _

theorem keeps_showShell : Keeps view showShell :=
  .bind (CurrentShell.keeps_fetch hv) fun _ => .bind .get fun _ => keeps_print hv _

theorem keeps_runShell (args : List String) : Keeps view (runShell args) :=
  .bind (keeps_chooseShell hv args) fun _ => .bind (keeps_showShell hv) fun _ => .pure _

theorem keeps_forM_print (args : List String) :
    Keeps view (args.forM fun arg => print (arg ++ "\n")) := by
  induction args with
  | nil => exact .pure _
  | cons arg args ih => exact .bind (keeps_print hv _) fun _ => ih

theorem keeps_runSplit (args : List String) : Keeps view (runSplit args) :=
  .bind (keeps_forM_print hv args) fun _ => .pure _

theorem keeps_run (b : Builtin) (args : List String) : Keeps view (b.run args) := by
  cases b with
  | cd => exact keeps_runCd hv args
  | exit => exact keeps_runExit hv args
  | which => exact keeps_runWhich hv args
  | shell => exact keeps_runShell hv args
  | split => exact keeps_runSplit hv args

end Builtin

end Kept

theorem Builtin.quiet_run (b : Builtin) (args : List String) : Quiet (b.run args) :=
  keeps_run Session.launches_unmoved b args

end ShellLine
