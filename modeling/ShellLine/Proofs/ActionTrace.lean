import ShellLine.Session

/-!
# What an action leaves behind

An action ends with a value or at a fault, and in both cases it leaves a session. Two views of its
journal tell what happened: the processes that were started, and the texts that were printed, in
order. Notes are in neither view. An action keeps a view of a session if it leaves it as it was,
from whatever session; since the session is handed on at every bind, such actions in a row keep it
too. A quiet action is one that keeps the started processes.
-/

namespace ShellLine

/-- Only tells of something. -/
def Event.isReport : Event → Bool
  | .out _ | .err _ | .note _ => true
  | _ => false

namespace Journal

/-- What was put on the two outputs. -/
def printed (events : List Event) : List Event :=
  events.filter fun
    | .out _ | .err _ => true
    | _ => false

theorem launches_append (earlier later : List Event) :
    launches (earlier ++ later) = launches earlier ++ launches later :=
  List.filterMap_append

theorem printed_append (earlier later : List Event) :
    printed (earlier ++ later) = printed earlier ++ printed later :=
  List.filter_append ..

end Journal

namespace Session

variable (s : Session)

def recorded (events : List Event) : Session :=
  { s with host.journal := s.host.journal ++ events }

def launches : List Launch :=
  Journal.launches s.host.journal

def printed : List Event :=
  Journal.printed s.host.journal

@[simp] theorem recorded_nil : s.recorded [] = s := by
  simp [recorded]

@[simp] theorem recorded_recorded (earlier later : List Event) :
    (s.recorded earlier).recorded later = s.recorded (earlier ++ later) := by
  simp [recorded]

theorem launches_recorded (events : List Event) :
    (s.recorded events).launches = s.launches ++ Journal.launches events :=
  Journal.launches_append _ _

theorem printed_recorded (events : List Event) :
    (s.recorded events).printed = s.printed ++ Journal.printed events :=
  Journal.printed_append _ _

end Session

namespace Action

variable {α β : Type} {s t : Session}

/-- The session that an action leaves, also at a fault. -/
def final (a : Action α) (s : Session) : Session :=
  match a s with
  | .ok _ t => t
  | .error _ t => t

/-- The value or the fault that an action ends with. -/
def outcome (a : Action α) (s : Session) : Except Fault α :=
  match a s with
  | .ok x _ => .ok x
  | .error fault _ => .error fault

theorem bind_ok {a : Action α} {f : α → Action β} {x : α} (h : a s = .ok x t) :
    (a >>= f) s = f x t := by
  change EStateM.bind a f s = f x t
  rw [EStateM.bind, h]

theorem get_bind (f : Session → Action β) (s : Session) : (get >>= f) s = f s s := rfl

theorem bind_error {a : Action α} {f : α → Action β} {fault : Fault} (h : a s = .error fault t) :
    (a >>= f) s = .error fault t := by
  change EStateM.bind a f s = .error fault t
  rw [EStateM.bind, h]

theorem final_of_ok {a : Action α} {x : α} (h : a s = .ok x t) : a.final s = t := by
  rw [final, h]

theorem final_of_error {a : Action α} {fault : Fault} (h : a s = .error fault t) :
    a.final s = t := by
  rw [final, h]

theorem final_bind (a : Action α) (f : α → Action β) (s : Session) :
    (∃ x, a s = .ok x (a.final s) ∧ (a >>= f).final s = (f x).final (a.final s)) ∨
      (a >>= f).final s = a.final s := by
  cases h : a s with
  | ok x t =>
    have ht := final_of_ok h
    rw [ht]
    refine .inl ⟨x, rfl, ?_⟩
    rw [final, bind_ok h, final]
  | error fault t =>
    rw [final_of_error h]
    exact .inr (final_of_error (bind_error h))

theorem record_apply (e : Event) (s : Session) : record e s = .ok () (s.recorded [e]) := rfl

theorem note_apply (n : Note) (s : Session) : note n s = .ok () (s.recorded [.note n]) := rfl

theorem ofExcept_final (r : Except Fault α) (s : Session) : (ofExcept r).final s = s := by
  cases r <;> rfl

/-- Leaves what `view` shows of a session, also at a fault. -/
def Keeps {γ : Type} (view : Session → γ) (a : Action α) : Prop :=
  ∀ s, view (a.final s) = view s

/-- Starts no process. -/
def Quiet (a : Action α) : Prop :=
  ∀ s, (a.final s).launches = s.launches

namespace Keeps

variable {γ : Type} {view : Session → γ}

theorem pure (x : α) : Keeps view (pure x : Action α) := fun _ => rfl

theorem throw (fault : Fault) : Keeps view (throw fault : Action α) := fun _ => rfl

theorem get : Keeps view get := fun _ => rfl

theorem modify {f : Session → Session} (h : ∀ s, view (f s) = view s) :
    Keeps view (modify f) := h

theorem bind {a : Action α} {f : α → Action β} (ha : Keeps view a) (hf : ∀ x, Keeps view (f x)) :
    Keeps view (a >>= f) := by
  intro s
  rcases final_bind a f s with ⟨x, -, h⟩ | h
  · rw [h, hf x, ha]
  · rw [h, ha]

end Keeps

end Action

/-- What `view` shows is not touched by printing, noting, changing the folder and choosing the
shell. -/
structure Session.Unmoved {γ : Type} (view : Session → γ) : Prop where
  recorded : ∀ s (e : Event), e.isReport = true → view (s.recorded [e]) = view s
  shell : ∀ s (shell : Command), view { s with shell } = view s
  cwd : ∀ s (cwd : String), view { s with host.cwd := cwd } = view s

theorem Session.launches_unmoved : Unmoved launches where
  recorded s e h := by
    rw [launches_recorded]
    cases e with
    | out | err | note => exact List.append_nil _
    | _ => cases h
  shell _ _ := rfl
  cwd _ _ := rfl

namespace Action

variable {γ : Type} {view : Session → γ} (hv : Session.Unmoved view)
include hv

theorem keeps_record {e : Event} (h : e.isReport = true) : Keeps view (record e) :=
  fun s => hv.recorded s e h

theorem keeps_note (n : Note) : Keeps view (note n) :=
  keeps_record hv rfl

theorem keeps_print (text : String) : Keeps view (print text) :=
  keeps_record hv rfl

theorem keeps_printError (text : String) : Keeps view (printError text) :=
  keeps_record hv rfl

end Action

end ShellLine
