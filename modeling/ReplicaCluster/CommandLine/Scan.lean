import ReplicaCluster.CommandLine.Grammar

/-!
# Scanning arguments

Arguments are taken from left to right.  An argument that starts with two hyphens is an option,
whose value follows in the same word after an equals sign or is the next word; one that starts
with a single hyphen can only ask for help; all others are operands.  After a word of just two
hyphens all words are operands.

A value is checked when the next option or operand begins, or at the end; a word that can be
neither of them is reported first.
-/

namespace ReplicaCluster

namespace CommandLine

/-- The values found so far. -/
structure Values where
  config : Option String := none
  adminAddress : Option String := none
  priority : Option Nat := none
  dryRun : Bool := false
  members : List String := []
  member : Option String := none
  partition : Option Nat := none
  change : Option Nat := none
  deriving DecidableEq, Repr

namespace Values

def has (v : Values) : Parameter → Bool
  | .config => v.config.isSome
  | .adminAddress => v.adminAddress.isSome
  | .priority => v.priority.isSome
  | .dryRun => v.dryRun
  | .help => false
  | .members => !v.members.isEmpty
  | .member => v.member.isSome
  | .partition => v.partition.isSome
  | .change => v.change.isSome

/-- Checks a word and keeps it as the value of a parameter. -/
def put (v : Values) (p : Parameter) (word : String) : Except UsageError Values :=
  match p with
  | .config => if word.isEmpty then .error .missingValue else .ok { v with config := some word }
  | .adminAddress => .ok { v with adminAddress := some word }
  | .priority => return { v with priority := some (← number32 word) }
  | .members => .ok { v with members := v.members ++ [word] }
  | .member => .ok { v with member := some word }
  | .partition => return { v with partition := some (← number32 word) }
  | .change => return { v with change := some (← number64 word) }
  | .dryRun | .help => .ok v

/-- Keeps the words that were given for a parameter.  An option needs a value and may be given
once. -/
def keep (v : Values) (p : Parameter) (words : List String) : Except UsageError Values :=
  if words.isEmpty then .error .missingValue
  else if p.optionName?.isSome && v.has p then .error .repeatedOption
  else words.foldlM (fun v word => v.put p word) v

end Values

/-- What may follow at some place of the command line. -/
structure Level where
  options : List Parameter
  operands : List Parameter
  /-- What is wrong with a word that is no operand; the flag tells whether all words are
  operands from here on. -/
  surplus : Bool → String → UsageError

def Level.top : Level where
  options := commonOptions
  operands := []
  surplus afterHyphens word :=
    if afterHyphens && (word = "help" || (Verb.ofName? word).isSome) then .unknownArgument
    else .unknownCommand

def Level.after (verb : Verb) : Level where
  options := commonOptions ++ verb.ownOptions
  operands := verb.operands
  surplus _ _ := .unknownArgument

/-- A scan under way. -/
structure Scan where
  values : Values := {}
  /-- The parameter whose words are being collected, and these words. -/
  pending : Option (Parameter × List String) := none
  /-- Whether the next word is the value of the pending option. -/
  awaiting : Bool := false
  /-- Whether all words are operands from here on. -/
  onlyOperands : Bool := false
  /-- The operands to come; a repeated one stays in front. -/
  operands : List Parameter

namespace Scan

def start (level : Level) : Scan := { operands := level.operands }

/-- Checks and keeps the pending words. -/
def settle (s : Scan) : Except UsageError Scan :=
  match s.pending with
  | none => .ok s
  | some (p, words) => return { s with values := ← s.values.keep p words, pending := none }

/-- Takes the name of an option and the value that stands in the same word. -/
def option (level : Level) (s : Scan) (name : String) (attached : Option String) :
    Except UsageError Scan :=
  match level.options.find? fun p => p.optionName? = some name with
  | none => .error .unknownArgument
  | some p =>
      if p.takesValue then do
        let s ← s.settle
        match attached with
        | some word => return { s with values := ← s.values.keep p [word], awaiting := false }
        | none => return { s with pending := some (p, []), awaiting := true }
      else if attached.isSome then .error .unexpectedValue
      else do
        let s ← s.settle
        if p = .help then .error .helpRequested
        else if s.values.dryRun then .error .repeatedOption
        else return { s with values := { s.values with dryRun := true }, awaiting := false }

def operand (level : Level) (s : Scan) (word : String) : Except UsageError Scan :=
  match s.operands with
  | [] => .error (level.surplus s.onlyOperands word)
  | p :: rest =>
      -- Members that follow each other are one group; an option in between starts another one.
      match s.pending with
      | some (.members, words) =>
          return { s with pending := some (.members, words ++ [word]), awaiting := false }
      | _ => do
          let s ← s.settle
          return { s with
            pending := some (p, [word])
            awaiting := false
            operands := if p = .members then s.operands else rest }

/-- The name and the value of an option that are written in one word. -/
def splitOption (cs : List Char) : String × Option String :=
  let name := String.ofList (cs.takeWhile (· ≠ '='))
  match cs.dropWhile (· ≠ '=') with
  | _ :: value => (name, some (String.ofList value))
  | [] => (name, none)

def step (level : Level) (s : Scan) (word : String) : Except UsageError Scan :=
  if s.onlyOperands then s.operand level word
  else
    match word.toList with
    | ['-', '-'] => .ok { s with onlyOperands := true }
    | '-' :: '-' :: cs =>
        let (name, attached) := splitOption cs
        s.option level name attached
    | '-' :: 'h' :: _ => s.option level "help" none
    -- A hyphen alone is an operand like any other word.
    | '-' :: _ :: _ => .error .unknownArgument
    | _ =>
        if s.awaiting then
          .ok { s with pending := s.pending.map fun (p, _) => (p, [word]), awaiting := false }
        else s.operand level word

end Scan

end CommandLine

end ReplicaCluster
