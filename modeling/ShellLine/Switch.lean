import ShellLine.Text.Digit
import ShellLine.Text.Quoted

/-!
# Switches

The switches stand before the command. A long one may be cut short while only one fits, and short
ones may share a dash. The first word that is not a switch begins the command, and so does a lone
pair of dashes; everything from there on belongs to the command as it is. A word that only looks
like a switch is a word of the command: a dash, a negative number, a dashed text with a space in it.
-/

namespace ShellLine

inductive Switch where
  | help
  | windows
  | posix
  | split
  | shell
  | verbose
deriving DecidableEq, Repr

/-- What is wrong with the switches. -/
inductive Misuse where
  | ambiguous (word : String) (spellings : List String)
  | unwantedValue (switch : Switch) (value : String)
  | conflict (switch other : Switch)
  | unrecognized (words : List String)
deriving DecidableEq, Repr

namespace Switch

def spellings : List (String × Switch) :=
  [("-h", help), ("--help", help), ("--windows", windows), ("--posix", posix), ("--split", split),
    ("--shell", shell), ("-v", verbose), ("--verbose", verbose)]

def ofSpelling? (text : String) : Option Switch :=
  spellings.lookup text

/-- All spellings of a switch, as they stand in a report. -/
def name (s : Switch) : String :=
  "/".intercalate ((spellings.filter (·.2 = s)).map (·.1))

/-- A switch as it is written, with the value written behind it. -/
structure Written where
  switch : Switch
  spelling : String
  value : Option String
deriving DecidableEq, Repr

def isShort (spelling : String) : Bool :=
  !spelling.startsWith "--"

/-- The text before the first equals sign and the one after it, if there is such a sign. -/
def cutValue (word : String) : String × Option String :=
  let cs := word.toList
  let name := cs.takeWhile (· != '=')
  (String.ofList name, (cs.drop name.length).tail?.map String.ofList)

/-- All switches that a dashed word may stand for. -/
def candidates (word : String) : List Written :=
  if isShort word then
    let cs := word.toList
    let value := String.ofList (cs.drop 2)
    (spellings.filter (·.1 = String.ofList (cs.take 2))).map fun (spelling, switch) =>
      ⟨switch, spelling, some value⟩
  else
    let (name, value) := cutValue word
    (spellings.filter (·.1.startsWith name)).map fun (spelling, switch) =>
      ⟨switch, spelling, value⟩

def isNegativeNumber (word : String) : Bool :=
  match word.toList with
  | '-' :: body =>
    let body := if body.getLast? = some '\n' then body.dropLast else body
    let whole := body.takeWhile Text.isDigit
    match body.drop whole.length with
    | [] => whole ≠ []
    | '.' :: places => places ≠ [] ∧ places.all Text.isDigit
    | _ => false
  | _ => false

/-- One word of the command line. -/
inductive Word where
  | plain
  | switch (written : Written)
  | unknown
deriving DecidableEq, Repr

def classifyDashed (word : String) : Except Misuse Word :=
  match candidates word with
  | [] => .ok (if isNegativeNumber word || word.toList.contains ' ' then .plain else .unknown)
  | [written] => .ok (.switch written)
  | several => .error (.ambiguous word (several.map (·.spelling)))

def classify (word : String) : Except Misuse Word :=
  if !word.startsWith "-" then .ok .plain
  else if let some switch := ofSpelling? word then .ok (.switch ⟨switch, word, none⟩)
  else if word = "-" then .ok .plain
  else
    let (name, value) := cutValue word
    match ofSpelling? name, value with
    | some switch, some value => .ok (.switch ⟨switch, name, some value⟩)
    | _, _ => classifyDashed word

/-- Words after a lone pair of dashes are not looked at. -/
def classifyAll : List String → Except Misuse (List (String × Word))
  | [] => .ok []
  | word :: rest =>
    if word = "--" then .ok ((word :: rest).map (·, .plain))
    else do
      let kind ← classify word
      let kinds ← classifyAll rest
      return (word, kind) :: kinds

/-- Switches behind one dash, the first of which is known already. -/
def expandShort (switch : Switch) : List Char → Except Misuse (List Switch)
  | [] => .ok [switch]
  | c :: rest =>
    match ofSpelling? (String.ofList ['-', c]) with
    | some following => (expandShort following rest).map (switch :: ·)
    | none => .error (.unwantedValue switch (String.ofList (c :: rest)))

/-- No switch takes a value. -/
def expand (w : Written) : Except Misuse (List Switch) :=
  match w.value with
  | none => .ok [w.switch]
  | some value =>
    if isShort w.spelling && value != "" then expandShort w.switch value.toList
    else .error (.unwantedValue w.switch value)

end Switch

namespace Misuse

def message : Misuse → String
  | ambiguous word spellings =>
    "ambiguous option: " ++ word ++ " could match " ++ ", ".intercalate spellings
  | unwantedValue switch value =>
    "argument " ++ switch.name ++ ": ignored explicit argument " ++ Text.quoted value
  | conflict switch other =>
    "argument " ++ switch.name ++ ": not allowed with argument " ++ other.name
  | unrecognized words => "unrecognized arguments: " ++ " ".intercalate words

end Misuse

end ShellLine
