import ReplicaCluster.Management.Request

/-!
# The grammar of the command line

A command line names a command, its operands, and options.  Options of the node itself may stand
before or after the command, and may be given once in either place; what stands after the command
wins.
-/

namespace ReplicaCluster

namespace CommandLine

inductive Verb
  | run
  | topology
  | addMembers
  | removeMembers
  | joinPartition
  | leavePartition
  | reassign
  | scale
  | cancel
  | forceOverwrite
  deriving DecidableEq, Repr

/-- What an argument can be about. -/
inductive Parameter
  | config
  | adminAddress
  | priority
  | dryRun
  | help
  | members
  | member
  | partition
  | change
  deriving DecidableEq, Repr

/-- Why a command line has no meaning, or none but to show help. -/
inductive UsageError
  | missingOperand
  | unknownArgument
  /-- A number that cannot be read or is out of range. -/
  | badNumber
  /-- An option without the value it needs. -/
  | missingValue
  | unknownCommand
  | missingCommand
  | repeatedOption
  /-- A value for an option that takes none. -/
  | unexpectedValue
  | helpRequested
  | nothingGiven
  deriving DecidableEq, Repr

/-- What is wrong with a command line, in words. -/
def UsageError.text : UsageError → String
  | .missingOperand => "an operand is missing"
  | .unknownArgument => "unknown argument"
  | .badNumber => "not a number in range"
  | .missingValue => "an option needs a value"
  | .unknownCommand => "unknown command"
  | .missingCommand => "a command is missing"
  | .repeatedOption => "an option is given twice"
  | .unexpectedValue => "an option takes no value"
  | .helpRequested | .nothingGiven =>
      "usage: [--config PATH] [--admin-addr ADDRESS] COMMAND [OPERAND...] [OPTION...]"

namespace Verb

def all : List Verb :=
  [.run, .topology, .addMembers, .removeMembers, .joinPartition, .leavePartition, .reassign,
    .scale, .cancel, .forceOverwrite]

def name : Verb → String
  | .run => "run"
  | .topology => "topology"
  | .addMembers => "add-members"
  | .removeMembers => "remove-members"
  | .joinPartition => "join-partition"
  | .leavePartition => "leave-partition"
  | .reassign => "reassign"
  | .scale => "scale"
  | .cancel => "cancel"
  | .forceOverwrite => "force-overwrite"

def ofName? (word : String) : Option Verb := all.find? fun v => v.name = word

/-- The operands of a command, in order. -/
def operands : Verb → List Parameter
  | .run | .topology => []
  | .addMembers | .removeMembers | .reassign | .scale | .forceOverwrite => [.members]
  | .joinPartition | .leavePartition => [.member, .partition]
  | .cancel => [.change]

/-- The options that only some commands have. -/
def ownOptions : Verb → List Parameter
  | .run | .topology | .cancel | .forceOverwrite => []
  | .addMembers | .removeMembers | .reassign | .scale | .leavePartition => [.dryRun]
  | .joinPartition => [.priority, .dryRun]

end Verb

namespace Parameter

def optionName? : Parameter → Option String
  | .config => some "config"
  | .adminAddress => some "admin-addr"
  | .priority => some "priority"
  | .dryRun => some "dry-run"
  | .help => some "help"
  | .members | .member | .partition | .change => none

def takesValue : Parameter → Bool
  | .dryRun | .help => false
  | _ => true

end Parameter

/-- The options that may stand anywhere. -/
def commonOptions : List Parameter := [.config, .adminAddress, .help]

/-! ## Numbers -/

/-- The number that decimal digits stand for; there must be at least one. -/
def digits? : List Char → Option Nat
  | [] => none
  | c :: rest => go 0 (c :: rest)
where
  /-- Goes on after the digits of `n`. -/
  go (n : Nat) : List Char → Option Nat
    | [] => some n
    | c :: rest => if c.isDigit then go (10 * n + (c.toNat - '0'.toNat)) rest else none

/-- A natural number in decimal digits, with or without a plus sign. -/
def natural? (word : String) : Option Nat :=
  match word.toList with
  | '+' :: rest => digits? rest
  | cs => digits? cs

/-- A whole number in decimal digits, with or without a sign. -/
def integer? (word : String) : Option Int :=
  match word.toList with
  | '-' :: rest => (digits? rest).map fun n => -(n : Int)
  | _ => (natural? word).map fun n => (n : Int)

/-- A partition number or a priority: a whole number between 0 and 2^32 - 1. -/
def number32 (word : String) : Except UsageError Nat :=
  match integer? word with
  | some i => if 0 ≤ i ∧ i < 0x100000000 then .ok i.toNat else .error .badNumber
  | none => .error .badNumber

/-- The number of a change: a natural number below 2^64. -/
def number64 (word : String) : Except UsageError Nat :=
  match natural? word with
  | some n => if n < 0x10000000000000000 then .ok n else .error .badNumber
  | none => .error .badNumber

end CommandLine

end ReplicaCluster
