import ShellLine.Line
import ShellLine.Proofs.ActionTrace

/-!
# Sessions alike but for the default profile

Two sessions are alike if they differ in nothing but the default profile of the host, and in the
text of a default shell, which is written with it. Two actions are in step if from sessions alike
they come to values in relation or to the same fault, and leave sessions alike. Actions in step stay
so at every bind. So it is enough to follow each action down to the few that change a session, and
only taking the default shell makes use of what the relation leaves open.
-/

namespace ShellLine

namespace Session

/-- Under another default profile of the host. -/
def under (s : Session) (q : Profile) : Session :=
  { s with host.defaultProfile := q }

end Session

/-- The default shell of some moment. -/
def Command.Defaulted (c : Command) : Prop :=
  ∃ s : Session, c = s.defaultShell

/-- The same command, or the default shell of one moment under two default profiles. -/
inductive Command.Alike : Command → Command → Prop
  | same (c : Command) : Alike c c
  | default (s : Session) (q : Profile) : Alike s.defaultShell (s.under q).defaultShell

theorem Command.Alike.eq_but_text {c d : Command} (h : c.Alike d) :
    d = { c with text := d.text } := by
  cases h with
  | same => rfl
  | default s q =>
    have hsystem : (s.under q).onWindows = s.onWindows := rfl
    unfold Session.defaultShell
    rw [hsystem]
    split <;> rfl

theorem Command.Alike.tokens {c d : Command} (h : c.Alike d) : d.tokens = c.tokens := by
  rw [h.eq_but_text]
  rfl

/-- Alike but for the default profile. -/
def Session.Alike (s t : Session) : Prop :=
  ∃ shell q, s.shell.Alike shell ∧ t = { s with shell }.under q

namespace Session.Alike

variable {s t : Session}

theorem refl (s : Session) : s.Alike s :=
  ⟨s.shell, s.host.defaultProfile, .same s.shell, rfl⟩

theorem under (h : s.Alike t) (q : Profile) : s.Alike (t.under q) := by
  obtain ⟨shell, q', hshell, rfl⟩ := h
  exact ⟨shell, q, hshell, rfl⟩

theorem shell (h : s.Alike t) : s.shell.Alike t.shell := by
  obtain ⟨shell, q, hshell, rfl⟩ := h
  exact hshell

theorem program (h : s.Alike t) : t.shell.program = s.shell.program := by
  rw [h.shell.eq_but_text]

theorem profile (h : s.Alike t) : t.profile = s.profile := by
  obtain ⟨shell, q, hshell, rfl⟩ := h
  rfl

theorem lastStatus (h : s.Alike t) : t.lastStatus = s.lastStatus := by
  obtain ⟨shell, q, hshell, rfl⟩ := h
  rfl

theorem onWindows (h : s.Alike t) : t.onWindows = s.onWindows := by
  rw [Session.onWindows, h.profile, Session.onWindows]

theorem defaultShell (h : s.Alike t) : s.defaultShell.Alike t.defaultShell := by
  obtain ⟨shell, q, hshell, rfl⟩ := h
  exact .default s q

end Session.Alike

namespace Action

variable {α β γ δ : Type}

/-- Values in relation, or the same fault, and sessions alike. -/
inductive Ends (R : α → β → Prop) :
    EStateM.Result Fault Session α → EStateM.Result Fault Session β → Prop
  | ok {x : α} {y : β} {s t : Session} (hx : R x y) (h : s.Alike t) : Ends R (.ok x s) (.ok y t)
  | error {fault : Fault} {s t : Session} (h : s.Alike t) :
      Ends R (.error fault s) (.error fault t)

def InStep (R : α → β → Prop) (a : Action α) (b : Action β) : Prop :=
  ∀ s t, s.Alike t → Ends R (a s) (b t)

/-- In step with itself. -/
def Shielded (a : Action α) : Prop :=
  InStep Eq a a

namespace InStep

variable {R : α → β → Prop} {Q : γ → δ → Prop}

theorem pure {x : α} {y : β} (h : R x y) : InStep R (pure x) (pure y) :=
  fun _ _ hst => .ok h hst

theorem throw (fault : Fault) : InStep R (throw fault) (throw fault) :=
  fun _ _ hst => .error hst

theorem get : InStep Session.Alike get get :=
  fun _ _ hst => .ok hst hst

theorem bind {a : Action α} {b : Action β} {f : α → Action γ} {g : β → Action δ}
    (hab : InStep R a b) (hfg : ∀ x y, R x y → InStep Q (f x) (g y)) :
    InStep Q (a >>= f) (b >>= g) := by
  intro s t hst
  have hends := hab s t hst
  generalize ha : a s = ra at hends
  generalize hb : b t = rb at hends
  cases hends with
  | ok hx huv =>
    rw [bind_ok ha, bind_ok hb]
    exact hfg _ _ hx _ _ huv
  | error huv =>
    rw [bind_error ha, bind_error hb]
    exact .error huv

end InStep

namespace Shielded

theorem pure (x : α) : Shielded (pure x : Action α) :=
  InStep.pure rfl

theorem throw (fault : Fault) : Shielded (throw fault : Action α) :=
  InStep.throw fault

theorem modify {f : Session → Session} (h : ∀ s t, s.Alike t → (f s).Alike (f t)) :
    Shielded (modify f) :=
  fun s t hst => .ok rfl (h s t hst)

theorem bind {a : Action α} {f : α → Action β} (ha : Shielded a) (hf : ∀ x, Shielded (f x)) :
    Shielded (a >>= f) :=
  InStep.bind ha fun x _ hxy => hxy ▸ hf x

/-- What is made of the session is the same for sessions alike. -/
theorem read {f : Session → Action β} (hsame : ∀ s t, s.Alike t → f t = f s)
    (hf : ∀ s, Shielded (f s)) : Shielded (get >>= f) :=
  InStep.bind .get fun s t hst => hsame s t hst ▸ hf s

/-- Nothing is made of the shell, nor of the default profile. -/
theorem readRest {f : Session → Action β}
    (hsame : ∀ (s : Session) (shell : Command) (q : Profile), f ({ s with shell }.under q) = f s)
    (hf : ∀ s, Shielded (f s)) : Shielded (get >>= f) := by
  refine read ?_ hf
  rintro s _ ⟨shell, q, -, rfl⟩
  exact hsame s shell q

end Shielded

theorem shielded_changeHost {f : Host → Host}
    (hf : ∀ h q, f { h with defaultProfile := q } = { f h with defaultProfile := q }) :
    Shielded (changeHost f) := by
  refine .modify ?_
  rintro s _ ⟨shell, q, h, rfl⟩
  exact ⟨shell, q, h, congrArg (Session.mk _ _ _ _) (hf s.host q)⟩

theorem shielded_record (e : Event) : Shielded (record e) :=
  shielded_changeHost fun _ _ => rfl

theorem shielded_printSome {put : String → Action Unit} (hput : ∀ text, Shielded (put text))
    (text : String) : Shielded (printSome put text) := by
  unfold printSome
  split
  · exact .pure ()
  · exact hput text

theorem shielded_printResult (r : Result) : Shielded (printResult r) :=
  .bind (shielded_printSome (fun _ => shielded_record _) r.out) fun _ =>
    shielded_printSome (fun _ => shielded_record _) r.err

theorem shielded_closing {close : Action Unit} {a : Action α} (hclose : Shielded close)
    (ha : Shielded a) : Shielded (closing close a) := by
  intro s t hst
  have hends := ha s t hst
  unfold closing
  generalize a s = r at hends
  generalize a t = r' at hends
  cases hends with
  | ok hx huv => exact InStep.bind hclose (fun _ _ _ => .pure hx) _ _ huv
  | error huv => exact InStep.bind hclose (fun _ _ _ => .throw _) _ _ huv

end Action

open ShellLine.Action

namespace CurrentShell

theorem shielded_useDefault : Shielded useDefault :=
  .modify fun _ _ hst => by
    have hdefault := hst.defaultShell
    obtain ⟨shell, q, -, rfl⟩ := hst
    exact ⟨_, q, hdefault, rfl⟩

theorem shielded_ensure : Shielded ensure := by
  refine .read (fun s t hst => by rw [hst.program]) fun s => ?_
  split
  · exact .bind shielded_useDefault fun _ =>
      .read (fun s t hst => by rw [hst.program]) fun _ => shielded_record _
  · exact .pure ()

/-- The two shells that are handed out may have different texts. -/
theorem fetch_inStep : InStep Command.Alike fetch fetch :=
  .bind shielded_ensure fun _ _ _ => .bind .get fun _ _ hst => .pure hst.shell

theorem shielded_choose (text : String) : Shielded (choose text) := by
  refine .read (fun s t hst => by rw [hst.profile]) fun s => ?_
  split
  · exact .throw _
  · refine .bind (.modify ?_) fun _ => shielded_record _
    rintro u _ ⟨shell, q, -, rfl⟩
    exact ⟨_, q, .same _, rfl⟩

theorem shielded_select (text : Option String) (force : Bool) : Shielded (select text force) := by
  unfold select
  dsimp only
  split
  · exact shielded_choose _
  · refine .read (fun s t hst => by rw [hst.program]) fun s => ?_
    split
    · exact shielded_useDefault
    · exact .pure ()

theorem shielded_clear : Shielded clear :=
  .modify fun _ _ hst => by
    obtain ⟨shell, q, -, rfl⟩ := hst
    exact ⟨{}, q, .same {}, rfl⟩

end CurrentShell

namespace Script

theorem shielded_create (text : String) : Shielded (create text) := by
  refine .readRest (fun _ _ _ => rfl) fun s => ?_
  exact .bind (shielded_changeHost fun _ _ => rfl) fun _ => .bind (shielded_record _) fun _ =>
    .bind (shielded_record _) fun _ => .pure _

theorem shielded_remove (path : String) : Shielded (remove path) := by
  refine .bind (shielded_record _) fun _ => .readRest (fun _ _ _ => rfl) fun s => ?_
  split
  · exact shielded_changeHost fun _ _ => rfl
  · split
    · exact shielded_record _
    · exact .throw _

theorem shielded_during {α : Type} (text : String) {use : String → Action α}
    (huse : ∀ path, Shielded (use path)) : Shielded (during text use) :=
  .bind (shielded_create text) fun path => shielded_closing (shielded_remove path) (huse path)

end Script

namespace Run

theorem shielded_withArgv {α : Type} (c : Command) (inShell : Bool) {use : List String → Action α}
    (huse : ∀ argv, Shielded (use argv)) : Shielded (withArgv c inShell use) := by
  unfold withArgv
  split
  · refine InStep.bind CurrentShell.fetch_inStep fun shell shell' h => ?_
    rw [h.eq_but_text]
    refine Shielded.read (fun s t hst => by rw [hst.onWindows]) fun s => ?_
    split
    · exact Script.shielded_during _ fun _ => huse _
    · exact huse _
  · exact huse _

theorem shielded_takeFate : Shielded takeFate :=
  .readRest (fun _ _ _ => rfl) fun _ =>
    .bind (shielded_changeHost fun _ _ => rfl) fun _ => .pure _

theorem shielded_start (o : Settings) (argv : List String) : Shielded (start o argv) := by
  refine .readRest (fun _ _ _ => rfl) fun s => .bind (shielded_record _) fun _ =>
    .bind shielded_takeFate fun fate => ?_
  split
  · exact .pure _
  · exact .pure _
  · exact .throw _

theorem shielded_readOutput (bytes : List UInt8) : Shielded (readOutput bytes) := by
  unfold readOutput
  split
  · exact .pure _
  · exact .throw _

theorem shielded_execute (o : Settings) (c : Command) : Shielded (execute o c) := by
  unfold execute
  dsimp only
  split
  · refine shielded_withArgv _ _ fun argv => .bind (shielded_record _) fun _ =>
      .bind (shielded_start _ _) fun ended => ?_
    cases ended with
    | none => exact .pure _
    | some ended =>
      exact .bind (shielded_readOutput _) fun _ => .bind (shielded_readOutput _) fun _ => .pure _
  · exact .pure _

theorem shielded_executeAside (o : Settings) (c : Command) : Shielded (executeAside o c) := by
  unfold executeAside
  dsimp only
  split
  · refine shielded_withArgv _ _ fun argv => .bind (shielded_record _) fun _ =>
      .bind (shielded_start _ _) fun ended => ?_
    cases ended with
    | none => exact .pure _
    | some ended => exact .pure _
  · exact .pure _

theorem shielded_readLine (text : String) : Shielded (readLine text) := by
  refine .read (fun s t hst => by rw [hst.profile]) fun s => ?_
  split
  · exact .pure _
  · exact .throw _

end Run

theorem Search.shielded_which (onWindows : Bool) (environ : Environment) (name : String) :
    Shielded (Search.which onWindows environ name) := by
  refine .readRest (fun _ _ _ => rfl) fun s => ?_
  dsimp only
  split
  · exact .pure _
  · split
    · exact .pure _
    · split
      · exact .bind (shielded_record _) fun _ => .pure _
      · exact .bind (shielded_record _) fun _ => .pure _

theorem Host.enter_under (h : Host) (q : Profile) (path : String) :
    ({ h with defaultProfile := q } : Host).enter path =
      (h.enter path).map fun h => { h with defaultProfile := q } := by
  unfold enter
  dsimp only
  split
  · rfl
  · split
    · rfl
    · split <;> rfl

namespace Builtin

theorem shielded_runCd (args : List String) : Shielded (runCd args) := by
  rintro s _ ⟨shell, q, h, rfl⟩
  have hreport (text : String) : Shielded (do printError text; return (1 : Int)) :=
    .bind (shielded_record _) fun _ => .pure 1
  have henviron : ({ s with shell }.under q).environ = s.environ := rfl
  have henter (path : String) : ({ s with shell }.under q).host.enter path = _ :=
    s.host.enter_under q path
  rw [runCd, get_bind, get_bind, henviron, henter]
  cases s.host.enter (args.headD ((s.environ.get? "HOME").getD "/")) with
  | ok host => exact .ok rfl ⟨shell, q, h, rfl⟩
  | error fault =>
    cases fault with
    | notFound => exact hreport _ _ _ ⟨shell, q, h, rfl⟩
    | notAFolder => exact hreport _ _ _ ⟨shell, q, h, rfl⟩
    | _ => exact .error ⟨shell, q, h, rfl⟩

theorem shielded_runExit (args : List String) : Shielded (runExit args) := by
  unfold runExit
  split
  · exact .throw _
  · split
    · exact .throw _
    · exact .bind (shielded_record _) fun _ => .throw _

theorem shielded_runWhich (names : List String) : Shielded (runWhich names) := by
  induction names with
  | nil => exact .pure _
  | cons name names ih =>
    refine .readRest (fun _ _ _ => rfl) fun s =>
      .bind (Search.shielded_which _ _ name) fun path => ?_
    split
    · exact .bind (shielded_record _) fun _ => .bind ih fun _ => .pure _
    · exact .bind (shielded_record _) fun _ => ih

theorem shielded_chooseShell (args : List String) : Shielded (chooseShell args) := by
  unfold chooseShell
  split
  · exact .pure _
  · exact CurrentShell.shielded_select _ _
  · exact .read (fun s t hst => by rw [hst.profile]) fun _ => CurrentShell.shielded_select _ _

theorem shielded_showShell : Shielded showShell := by
  refine InStep.bind CurrentShell.fetch_inStep fun shell shell' h => ?_
  rw [h.eq_but_text]
  exact Shielded.read (fun s t hst => by rw [hst.profile]) fun _ => shielded_record _

theorem shielded_runSplit (args : List String) : Shielded (runSplit args) := by
  have hprint : Shielded (args.forM fun arg => print (arg ++ "\n")) := by
    induction args with
    | nil => exact .pure _
    | cons arg args ih => exact .bind (shielded_record _) fun _ => ih
  exact .bind hprint fun _ => .pure _

theorem shielded_run (b : Builtin) (args : List String) : Shielded (b.run args) := by
  cases b with
  | cd => exact shielded_runCd args
  | exit => exact shielded_runExit args
  | which => exact shielded_runWhich args
  | shell =>
    exact .bind (shielded_chooseShell args) fun _ => .bind shielded_showShell fun _ => .pure _
  | split => exact shielded_runSplit args

end Builtin

theorem Session.Alike.map_lastStatus {s t : Session} (h : s.Alike t) (status : Int) :
    { s with lastStatus := status }.Alike { t with lastStatus := status } := by
  obtain ⟨shell, q, hshell, rfl⟩ := h
  exact ⟨shell, q, hshell, rfl⟩

namespace Line

theorem shielded_execute (text : String) : Shielded (execute text) := by
  refine .read (fun s t hst => by rw [hst.profile]) fun s => ?_
  split
  · exact .bind (shielded_record _) fun _ => .pure _
  · split
    · exact .read (fun s t hst => by rw [hst.lastStatus]) fun _ => .pure _
    · split
      · exact Builtin.shielded_run _ _
      · exact .bind (Run.shielded_execute _ _) fun _ => .bind (shielded_printResult _) fun _ =>
          .pure _

theorem shielded_enter (text : String) : Shielded (enter text) :=
  .bind (shielded_execute text) fun status =>
    .modify fun _ _ hst => hst.map_lastStatus status

end Line

end ShellLine
