import ReplicaCluster.CommandLine.Scan

/-!
# Invocations

The meaning of a command line: where the configuration and the admin endpoint are, and which
management request to send.  The command `run` sends none; it starts the node itself.
-/

namespace ReplicaCluster

namespace CommandLine

/-- What a command line asks for. -/
structure Invocation where
  config : Option String
  adminAddress : Option String
  request : Option Request
  deriving DecidableEq, Repr

/-- The request of a command, unless an operand is missing. -/
def Verb.request (verb : Verb) (v : Values) : Except UsageError (Option Request) :=
  let members (make : List MemberId → Request) : Except UsageError (Option Request) :=
    if v.members.isEmpty then .error .missingOperand else .ok (some (make v.members))
  match verb with
  | .run => .ok none
  | .topology => .ok (some .topology)
  | .addMembers => members (.addMembers · v.dryRun)
  | .removeMembers => members (.removeMembers · v.dryRun)
  | .reassign => members (.reassign · v.dryRun)
  | .scale => members (.scale · v.dryRun)
  | .forceOverwrite => members .forceOverwrite
  | .joinPartition =>
      match v.member, v.partition with
      | some m, some p => .ok (some (.joinPartition m p (v.priority.getD 1) v.dryRun))
      | _, _ => .error .missingOperand
  | .leavePartition =>
      match v.member, v.partition with
      | some m, some p => .ok (some (.leavePartition m p v.dryRun))
      | _, _ => .error .missingOperand
  | .cancel =>
      match v.change with
      | some change => .ok (some (.cancel change))
      | none => .error .missingOperand

/-- Scans what follows a command. -/
def scanAfter (verb : Verb) (words : List String) : Except UsageError Values := do
  let s ← words.foldlM (Scan.step (.after verb)) (.start (.after verb))
  return (← s.settle).values

/-- What a request for help comes to: it may name one command. -/
def help (words : List String) : UsageError :=
  match words with
  | [] => .helpRequested
  | [word] =>
      if word = "help" || (Verb.ofName? word).isSome then .helpRequested else .unknownCommand
  | _ => .unknownCommand

/-- Scans up to the command: the scan so far, the command, and what follows it. -/
def scanTop (s : Scan) : List String → Except UsageError (Scan × Option (Verb × List String))
  | [] => .ok (s, none)
  | word :: rest =>
      match Verb.ofName? word with
      | some verb =>
          if s.awaiting || s.onlyOperands then advance word rest else .ok (s, some (verb, rest))
      | none =>
          if word = "help" && !s.awaiting && !s.onlyOperands then .error (help rest)
          else advance word rest
where
  /-- Takes a word that is no command. -/
  advance (word : String) (rest : List String) :
      Except UsageError (Scan × Option (Verb × List String)) := do
    scanTop (← s.step .top word) rest

/-- The meaning of a command line. -/
def parse (words : List String) : Except UsageError Invocation := do
  let (s, command) ← scanTop (.start .top) words
  match command with
  | some (verb, rest) =>
      -- What is wrong after the command is reported before a pending value in front of it.
      let after ← scanAfter verb rest
      let request ← verb.request after
      let before := (← s.settle).values
      return {
        config := after.config <|> before.config
        adminAddress := after.adminAddress <|> before.adminAddress
        request }
  | none =>
      let before := (← s.settle).values
      if before.config.isNone && before.adminAddress.isNone then .error .nothingGiven
      else .error .missingCommand

end CommandLine

end ReplicaCluster
