import ShellLine.Switch

/-!
# Options

The switches are taken from left to right. Asking for help ends the reading at once. Words that look
like switches but are none are all reported together, after everything else has been read.
-/

namespace ShellLine

structure Options where
  onWindows : Option Bool := none
  split : Bool := false
  inShell : Bool := false
  verbose : Bool := false
  words : List String := []
deriving DecidableEq, Repr

namespace Options

/-- Why there are no options to go on with. -/
inductive Stop where
  | help
  | misuse (misuse : Misuse)
deriving DecidableEq, Repr

def choose (o : Options) (switch other : Switch) (onWindows : Bool) : Except Stop Options :=
  if o.onWindows = some !onWindows then .error (.misuse (.conflict switch other))
  else .ok { o with onWindows }

def apply (o : Options) : Switch → Except Stop Options
  | .help => .error .help
  | .windows => o.choose .windows .posix true
  | .posix => o.choose .posix .windows false
  | .split => .ok { o with split := true }
  | .shell => .ok { o with inShell := true }
  | .verbose => .ok { o with verbose := true }

def finish (o : Options) (unknown : List String) : Except Stop Options :=
  if unknown = [] then .ok o else .error (.misuse (.unrecognized unknown))

def take (o : Options) (unknown : List String) : List (String × Switch.Word) → Except Stop Options
  | [] => o.finish unknown
  | (word, .unknown) :: rest => take o (unknown ++ [word]) rest
  | (word, .plain) :: rest => Options.finish { o with words := word :: rest.map Prod.fst } unknown
  | (_, .switch written) :: rest =>
    match Switch.expand written with
    | .error misuse => .error (.misuse misuse)
    | .ok switches => do
      let o ← switches.foldlM apply o
      take o unknown rest

def ofArgs (args : List String) : Except Stop Options :=
  match Switch.classifyAll args with
  | .error misuse => .error (.misuse misuse)
  | .ok words => take {} [] words

end Options

end ShellLine
