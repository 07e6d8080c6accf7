import Mathlib.Data.List.Basic
import ShellLine.Loop
import ShellLine.Proofs.LineFaults
import ShellLine.Proofs.TypedCommands

/-!
# The turns of the interactive loop

The loop takes one turn for each prompt at which a new command may be typed. A turn completes the
command and remembers its status, abandons it, or leaves the loop. `Turns` chains turns: the session
that one leaves is the session of the next, and what is typed at them comes in the order of the
reads. A run of the loop takes such turns, so what holds from one turn to the next holds for a whole
run: at each prompt the status is that of the last command that was completed.
-/

namespace ShellLine

/-- What the loop ends with when it is left at a fault. -/
def Fault.leaving : Fault → Except Fault Int
  | .exit status => .ok status
  | fault => .error fault

theorem Fault.leaving_of_ne {fault : Fault} (h : ∀ status, fault ≠ .exit status) :
    fault.leaving = .error fault := by
  cases fault with
  | exit status => exact absurd rfl (h status)
  | _ => rfl

namespace Loop

inductive Outcome where
  | completed (status : Int)
  | abandoned
  | leaves (result : Except Fault Int)

/-- The session at a prompt, what is typed there, what becomes of it, and the session after it. -/
structure Turn where
  session : Session
  typed : Typed
  outcome : Outcome
  next : Session

/-- Each turn is one of these. A command is carried out once; an interruption gives it up, whether
it was still being typed or was already carried out, and a new line is begun. -/
inductive Turn.Holds : Turn → Prop
  | completed {s t : Session} {text : String} {status : Int}
      (h : Line.execute text s = .ok status t) :
      Holds ⟨s, .command text, .completed status, { t with lastStatus := status }⟩
  | stopped {s t : Session} {text : String} (h : Line.execute text s = .error .interrupt t) :
      Holds ⟨s, .command text, .abandoned, t.recorded [.out "\n"]⟩
  | left {s t : Session} {text : String} {status : Int}
      (h : Line.execute text s = .error (.exit status) t) :
      Holds ⟨s, .command text, .leaves (.ok status), t⟩
  | failed {s t : Session} {text : String} {fault : Fault}
      (h : Line.execute text s = .error fault t) (hi : fault ≠ .interrupt)
      (he : ∀ status, fault ≠ .exit status) :
      Holds ⟨s, .command text, .leaves (.error fault), t⟩
  | abandoned {s : Session} : Holds ⟨s, .abandoned, .abandoned, s.recorded [.out "\n"]⟩
  | ended {s : Session} : Holds ⟨s, .ended, .leaves (.ok 0), s.recorded [.out "\n"]⟩

/-- From a session, with these things typed at its prompts, to the result and the session at the
end. -/
inductive Turns : Session → List Typed → List Turn → Except Fault Int → Session → Prop
  | last {turn : Turn} {result : Except Fault Int} (rest : List Typed) (h : turn.Holds)
      (hleaves : turn.outcome = .leaves result) :
      Turns turn.session (turn.typed :: rest) [turn] result turn.next
  | more {turn : Turn} {rest : List Typed} {turns : List Turn} {result : Except Fault Int}
      {t : Session} (h : turn.Holds) (hstays : ∀ result, turn.outcome ≠ .leaves result)
      (hrest : Turns turn.next rest turns result t) :
      Turns turn.session (turn.typed :: rest) (turn :: turns) result t

/-- The status of the command, if the turn completed it. -/
def Turn.status? (turn : Turn) : Option Int :=
  match turn.outcome with
  | .completed status => some status
  | _ => none

/-- The status of the last of these turns that completed its command. -/
def lastCompleted (turns : List Turn) : Option Int :=
  (turns.filterMap Turn.status?).getLast?

/-- The sessions at the prompts for a new command. -/
def Course.freshSessions (course : Course) : List Session :=
  (course.visits.filter (·.prompt = prompt)).map (·.session)

section Turn

theorem enter_apply (text : String) (s : Session) :
    Line.enter text s = match Line.execute text s with
      | .ok status t => .ok () { t with lastStatus := status }
      | .error fault t => .error fault t := by
  cases h : Line.execute text s with
  | ok status t => exact Action.bind_ok h
  | error fault t => exact Action.bind_error h

theorem turn_command (text : String) (s : Session) :
    turn (.ok text) s = match Line.execute text s with
      | .ok status t => (none, { t with lastStatus := status })
      | .error (.exit status) t => (some (.ok status), t)
      | .error .endOfInput t => (some (.ok 0), t.recorded [.out "\n"])
      | .error .interrupt t => (none, t.recorded [.out "\n"])
      | .error fault t => (some (.error fault), t) := by
  have hbind : (Action.ofExcept (.ok text) >>= Line.enter) s = Line.enter text s := rfl
  rw [turn, hbind, enter_apply]
  cases Line.execute text s with
  | ok => rfl
  | error fault => cases fault <;> rfl

/-- One round of the loop is a turn. The input ends at a prompt only, never within a line. -/
theorem exists_turn (typed : Typed) {s : Session} (hp : s.host.Plain) :
    ∃ made : Turn, made.Holds ∧ made.session = s ∧ made.typed = typed ∧
      ((∃ result, made.outcome = .leaves result ∧
          turn typed.read s = (some result, made.next)) ∨
        (typed ≠ .ended ∧ (∀ result, made.outcome ≠ .leaves result) ∧
          turn typed.read s = (none, made.next))) := by
  cases typed with
  | abandoned => exact ⟨_, .abandoned, rfl, rfl, .inr ⟨by simp, by simp, rfl⟩⟩
  | ended => exact ⟨_, .ended, rfl, rfl, .inl ⟨_, rfl, rfl⟩⟩
  | command text =>
    rw [Typed.read, turn_command]
    cases h : Line.execute text s with
    | ok status t => exact ⟨_, .completed h, rfl, rfl, .inr ⟨by simp, by simp, rfl⟩⟩
    | error fault t =>
      cases fault with
      | interrupt => exact ⟨_, .stopped h, rfl, rfl, .inr ⟨by simp, by simp, rfl⟩⟩
      | exit status => exact ⟨_, .left h, rfl, rfl, .inl ⟨_, rfl, rfl⟩⟩
      | endOfInput =>
        rcases Line.own_fault_of_execute hp h rfl with ⟨_, _, hf⟩ | ⟨_, _, _, _, hf, _⟩ <;> cases hf
      | _ => exact ⟨_, .failed h (by simp) (by simp), rfl, rfl, .inl ⟨_, rfl, rfl⟩⟩

theorem Turn.Holds.of_ok {made : Turn} {text : String} {status : Int} {t : Session}
    (h : made.Holds) (htyped : made.typed = .command text)
    (hexecute : Line.execute text made.session = .ok status t) :
    made.outcome = .completed status ∧ made.next = { t with lastStatus := status } := by
  cases h with
  | completed h =>
    cases htyped
    cases hexecute.symm.trans h
    exact ⟨rfl, rfl⟩
  | stopped h | left h | failed h =>
    cases htyped
    cases hexecute.symm.trans h
  | abandoned | ended => cases htyped

theorem Turn.Holds.of_error {made : Turn} {text : String} {fault : Fault} {t : Session}
    (h : made.Holds) (htyped : made.typed = .command text)
    (hexecute : Line.execute text made.session = .error fault t) (hi : fault ≠ .interrupt) :
    made.outcome = .leaves fault.leaving ∧ made.next = t := by
  cases h with
  | left h =>
    cases htyped
    cases hexecute.symm.trans h
    exact ⟨rfl, rfl⟩
  | failed h _ he =>
    cases htyped
    cases hexecute.symm.trans h
    exact ⟨by rw [Fault.leaving_of_ne he], rfl⟩
  | stopped h =>
    cases htyped
    cases hexecute.symm.trans h
    exact absurd rfl hi
  | completed h =>
    cases htyped
    cases hexecute.symm.trans h
  | abandoned | ended => cases htyped

theorem carries_of_ok {text : String} {s t : Session} {status : Int}
    (h : Line.execute text s = .ok status t) : s.Carries t :=
  Action.final_of_ok h ▸ Line.execute_carries text s

theorem carries_of_error {text : String} {s t : Session} {fault : Fault}
    (h : Line.execute text s = .error fault t) : s.Carries t :=
  Action.final_of_error h ▸ Line.execute_carries text s

/-- What the next turn finds: only a completed command sets the status. -/
theorem Turn.Holds.next_carries {made : Turn} (h : made.Holds) :
    made.next.profile = made.session.profile ∧
      (made.session.host.Plain → made.next.host.Plain) ∧
      made.next.lastStatus = made.status?.getD made.session.lastStatus := by
  cases h with
  | completed h => exact ⟨(carries_of_ok h).profile, (carries_of_ok h).plain, rfl⟩
  | stopped h =>
    have hc := (carries_of_error h).recorded [.out "\n"]
    exact ⟨hc.profile, hc.plain, hc.lastStatus⟩
  | left h | failed h =>
    have hc := carries_of_error h
    exact ⟨hc.profile, hc.plain, hc.lastStatus⟩
  | @abandoned s | @ended s =>
    have hc := (Session.Carries.refl s).recorded [.out "\n"]
    exact ⟨hc.profile, hc.plain, hc.lastStatus⟩

end Turn

section Run

theorem freshSessions_visits (more : Nat) (s : Session) (visits : List Visit) (result)
    (t : Session) :
    Course.freshSessions ⟨(prompt :: List.replicate more Reader.morePrompt).map
        (fun prompt => (⟨prompt, s⟩ : Visit)) ++ visits, result, t⟩ =
      s :: Course.freshSessions ⟨visits, result, t⟩ := by
  have hmore : Reader.morePrompt ≠ prompt := by decide
  simp [Course.freshSessions, hmore]

/-- A run takes one turn after the other, with the pieces of what is read. -/
theorem exists_turns (reads : List Read) {s : Session} (hp : s.host.Plain) :
    ∃ turns, Turns s (Typed.ofReads s.profile.escape [] reads) turns (run s reads).result
        (run s reads).session ∧
      (run s reads).freshSessions = turns.map (·.session) := by
  fun_induction run s reads with
  | case1 s reads reading visits result t h =>
    obtain ⟨typed, more, hcommand, hprompts, htyped⟩ :=
      Reader.next_typed s.profile.escape prompt reads
    obtain ⟨made, hmade, rfl, rfl, ⟨result', hleaves, hturn⟩ | ⟨-, -, hturn⟩⟩ :=
      exists_turn typed hp
    · cases (hcommand ▸ hturn).symm.trans h
      refine ⟨[made], ?_, ?_⟩
      · rw [htyped, Typed.behind_nil]
        exact .last _ hmade hleaves
      · have hfresh := freshSessions_visits more made.session [] result made.next
        rwa [List.append_nil, ← hprompts] at hfresh
    · cases (hcommand ▸ hturn).symm.trans h
  | case2 s reads reading visits t h later ih =>
    obtain ⟨typed, more, hcommand, hprompts, htyped⟩ :=
      Reader.next_typed s.profile.escape prompt reads
    obtain ⟨made, hmade, rfl, rfl, ⟨result', hleaves, hturn⟩ | ⟨hended, hstays, hturn⟩⟩ :=
      exists_turn typed hp
    · cases (hcommand ▸ hturn).symm.trans h
    · cases (hcommand ▸ hturn).symm.trans h
      obtain ⟨hprofile, hplain, -⟩ := hmade.next_carries
      obtain ⟨turns, hturns, hfresh⟩ := ih (hplain hp)
      refine ⟨made :: turns, ?_, ?_⟩
      · rw [htyped, Typed.behind_nil, if_neg hended]
        rw [hprofile] at hturns
        exact .more hmade hstays hturns
      · have hasked := freshSessions_visits more made.session later.visits later.result
          later.session
        rw [List.map_cons, ← hfresh]
        rwa [← hprompts] at hasked

end Run

section Turns

theorem lastCompleted_cons (turn : Turn) (turns : List Turn) (status : Int) :
    (lastCompleted (turn :: turns)).getD status =
      (lastCompleted turns).getD (turn.status?.getD status) := by
  unfold lastCompleted
  cases h : turn.status? with
  | none => rw [List.filterMap_cons_none h, Option.getD_none]
  | some completed =>
    rw [List.filterMap_cons_some h, List.getLast?_cons, Option.getD_some, Option.getD_some]

variable {s t : Session} {typed : List Typed} {turns : List Turn} {result : Except Fault Int}

/-- The session that is found at each turn, from the turns before it. -/
theorem Turns.session_at (h : Turns s typed turns result t) (hp : s.host.Plain)
    {earlier later : List Turn} {turn : Turn} (hturns : turns = earlier ++ turn :: later) :
    turn.Holds ∧ turn.session.profile = s.profile ∧ turn.session.host.Plain ∧
      turn.session.lastStatus = (lastCompleted earlier).getD s.lastStatus := by
  induction h generalizing earlier with
  | last rest hmade hleaves =>
    obtain ⟨rfl, hrest⟩ | ⟨earlier', -, hrest⟩ := List.cons_eq_append_iff.mp hturns
    · cases hrest
      exact ⟨hmade, rfl, hp, rfl⟩
    · exact absurd hrest.symm (List.append_ne_nil_of_right_ne_nil _ (List.cons_ne_nil _ _))
  | more hmade hstays hrest ih =>
    obtain ⟨hprofile, hplain, hstatus⟩ := hmade.next_carries
    obtain ⟨rfl, hrest⟩ | ⟨earlier', rfl, hrest⟩ := List.cons_eq_append_iff.mp hturns
    · cases hrest
      exact ⟨hmade, rfl, hp, rfl⟩
    · obtain ⟨hturn, hprofile', hplain', hstatus'⟩ := ih (hplain hp) hrest
      exact ⟨hturn, hprofile'.trans hprofile, hplain',
        by rw [hstatus', lastCompleted_cons, hstatus]⟩

theorem Turns.of_mem (h : Turns s typed turns result t) (hp : s.host.Plain) {turn : Turn}
    (hmem : turn ∈ turns) :
    turn.Holds ∧ turn.session.profile = s.profile ∧ turn.session.host.Plain := by
  obtain ⟨earlier, later, hturns⟩ := List.append_of_mem hmem
  obtain ⟨hholds, hprofile, hplain, -⟩ := h.session_at hp hturns
  exact ⟨hholds, hprofile, hplain⟩

/-- The turn that leaves is the last one. -/
theorem Turns.last_leaves (h : Turns s typed turns result t) :
    ∃ earlier last, turns = earlier ++ [last] ∧ last.outcome = .leaves result ∧ last.next = t ∧
      ∀ turn ∈ earlier, ∀ result, turn.outcome ≠ .leaves result := by
  induction h with
  | last rest hmade hleaves => exact ⟨[], _, rfl, hleaves, rfl, by simp⟩
  | @more made rest turns result t hmade hstays hrest ih =>
    obtain ⟨earlier, last, rfl, hleaves, hnext, hearlier⟩ := ih
    exact ⟨made :: earlier, last, rfl, hleaves, hnext, List.forall_mem_cons.mpr ⟨hstays, hearlier⟩⟩

theorem Turns.eq_of_leaves (h : Turns s typed turns result t) {turn : Turn} (hmem : turn ∈ turns)
    {result' : Except Fault Int} (hleaves : turn.outcome = .leaves result') :
    result' = result ∧ turn.next = t := by
  obtain ⟨earlier, last, rfl, hlast, hnext, hearlier⟩ := h.last_leaves
  obtain hmem | hmem := List.mem_append.mp hmem
  · exact absurd hleaves (hearlier turn hmem _)
  · cases List.mem_singleton.mp hmem
    cases hleaves.symm.trans hlast
    exact ⟨rfl, hnext⟩

theorem Turns.final_status (h : Turns s typed turns result t) :
    t.lastStatus = (lastCompleted turns).getD s.lastStatus := by
  induction h with
  | last rest hmade hleaves =>
    rw [lastCompleted_cons]
    exact hmade.next_carries.2.2
  | more hmade hstays hrest ih =>
    rw [lastCompleted_cons, ← hmade.next_carries.2.2]
    exact ih

end Turns

section Account

/-- The command that was typed is a request to leave, with these arguments. -/
def Turn.Requests (turn : Turn) (args : List String) : Prop :=
  ∃ text, turn.typed = .command text ∧
    Tokens.ofLine turn.session.profile text = .ok ⟨Builtin.exit.name :: args, false⟩

/-- Why a turn is the last one: the input has ended, or the command was a request to leave, or it
stopped at some other fault than an interruption. -/
inductive Turn.Ends (turn : Turn) : Except Fault Int → Prop
  | ended (h : turn.typed = .ended) : Ends turn (.ok 0)
  | requested {args : List String} (h : turn.Requests args) :
      Ends turn (.ok (Builtin.exitStatus args))
  | stopped {text : String} {fault : Fault} (h : turn.typed = .command text)
      (hexecute : Line.execute text turn.session = .error fault turn.next)
      (hi : fault ≠ .interrupt) (he : ∀ status, fault ≠ .exit status) : Ends turn (.error fault)

/-- The turns that account for a run of the loop over these reads. -/
structure Account (s : Session) (reads : List Read) (turns : List Turn) : Prop where
  taken : Turns s (Typed.ofReads s.profile.escape [] reads) turns (run s reads).result
    (run s reads).session
  asked : (run s reads).freshSessions = turns.map (·.session)
  status : ∀ earlier turn later, turns = earlier ++ turn :: later →
    turn.session.lastStatus = (lastCompleted earlier).getD s.lastStatus
  /-- So leaving has not changed it. -/
  finalStatus : (run s reads).session.lastStatus = (lastCompleted turns).getD s.lastStatus
  refused : ∀ turn ∈ turns, ∀ text quote, turn.typed = .command text →
    Tokens.ofLine turn.session.profile text = .error quote → turn.outcome = .completed 2
  idle : ∀ turn ∈ turns, ∀ text, turn.typed = .command text →
    turn.session.profile.Skips text ∨
      (∃ flagged, Tokens.ofLine turn.session.profile text = .ok ⟨[], flagged⟩) →
    turn.outcome = .completed turn.session.lastStatus
  left : ∃ earlier last, turns = earlier ++ [last] ∧ last.Ends (run s reads).result ∧
    ∀ turn ∈ earlier, ∀ args, ¬ turn.Requests args

theorem Turn.Holds.ends {made : Turn} (h : made.Holds) (hp : made.session.host.Plain)
    {result : Except Fault Int} (hleaves : made.outcome = .leaves result) :
    made.Ends result := by
  cases h with
  | left h =>
    cases hleaves
    obtain ⟨args, htokens, hf⟩ | ⟨_, _, _, _, hf, _⟩ := Line.own_fault_of_execute hp h rfl
    · cases hf
      exact .requested ⟨_, rfl, htokens⟩
    · cases hf
  | failed h hi he =>
    cases hleaves
    exact .stopped rfl h hi he
  | ended =>
    cases hleaves
    exact .ended rfl
  | completed | stopped | abandoned => cases hleaves

/-- Every run has its account. -/
theorem exists_account (reads : List Read) {s : Session} (hp : s.host.Plain) :
    ∃ turns, Account s reads turns := by
  obtain ⟨turns, htaken, hasked⟩ := exists_turns reads hp
  have hholds (turn : Turn) (hmem : turn ∈ turns) : turn.Holds := (htaken.of_mem hp hmem).1
  refine ⟨turns, {
    taken := htaken
    asked := hasked
    status := fun earlier turn later hturns => (htaken.session_at hp hturns).2.2.2
    finalStatus := htaken.final_status
    refused := fun turn hmem text quote htyped htokens =>
      ((hholds turn hmem).of_ok htyped (Line.execute_of_error htokens)).1
    idle := ?_
    left := ?_ }⟩
  · intro turn hmem text htyped hidle
    obtain ⟨flagged, htokens⟩ := hidle.elim (fun h => ⟨_, Tokens.ofLine_of_skips h⟩) id
    exact ((hholds turn hmem).of_ok htyped (Line.execute_of_nil htokens)).1
  · obtain ⟨earlier, last, rfl, hleaves, -, hstay⟩ := htaken.last_leaves
    obtain ⟨hlast, -, hplain⟩ := htaken.of_mem hp (List.mem_append_right _ List.mem_cons_self)
    refine ⟨earlier, last, rfl, hlast.ends hplain hleaves, ?_⟩
    rintro turn hmem args ⟨text, htyped, htokens⟩
    obtain ⟨t, hexecute⟩ := Line.execute_exit htokens
    have hturn := hholds turn (List.mem_append_left _ hmem)
    exact hstay turn hmem _ (hturn.of_error htyped hexecute nofun).1

/-- A command that is given up while it is typed, one that is given up when its process is started,
and one that leaves. -/
theorem exists_account_interrupted :
    let host : Host := { fates := [.exits 7 [] [], .fails .interrupt] }
    let s : Session := { profile := .posix, host }
    let reads : List Read := [.line "ls \\", .interrupt, .line "make", .line "make", .line "exit 4"]
    host.Plain ∧ (run s reads).result.toOption = some 4 ∧
      (run s reads).freshSessions.map (·.lastStatus) = [0, 0, 7, 7] ∧
      ∃ turns, Account s reads turns := by
  intro host s reads
  have hp : host.Plain := {
    fates := by
      intro fate hmem fault hf
      simp only [host, List.mem_cons, List.not_mem_nil, or_false] at hmem
      rcases hmem with rfl | rfl | rfl <;> cases hf
      rfl
    removal := by simp [host] }
  exact ⟨hp, by decide +kernel, by decide +kernel, exists_account reads hp⟩

end Account

end Loop

end ShellLine
