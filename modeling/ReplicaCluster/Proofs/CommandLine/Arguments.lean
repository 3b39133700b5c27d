import Mathlib.Data.List.Induction
import ReplicaCluster.Proofs.CommandLine.Words

/-!
# Arguments on a command line

An `Argument` is an operand, an option with its value, or the flag for a dry run; `Argument.words`
are the words that say it.  A scan takes the words of one argument after the other, and what it
knows between two of them does not depend on how they are written, nor on the order in which
options and operands stand (`scanAfter_words`, `scanTop_words`).

The invariant is `Scan.Ready`: the scan waits for no value, and the values that it has found, with
those that it still has to check, are the ones that the arguments so far come to.
-/

namespace ReplicaCluster

namespace CommandLine

/-! ## Arguments -/

/-- Whether the value of an option is the next word or stands behind an equals sign. -/
inductive Spelling
  | apart
  | attached
  deriving DecidableEq

inductive Argument
  | operand (word : String)
  | option (p : Parameter) (spelling : Spelling) (value : String)
  | dryRun
  deriving DecidableEq

namespace Argument

/-- The words in which an argument is given. -/
def words : Argument → List String
  | .operand word => [word]
  | .option p .apart value => ["--" ++ p.optionName, value]
  | .option p .attached value => ["--" ++ p.optionName ++ "=" ++ value]
  | .dryRun => ["--dry-run"]

def operand? : Argument → Option String
  | .operand word => some word
  | .option .. | .dryRun => none

/-- The value that the argument gives for an option. -/
def value? (p : Parameter) : Argument → Option String
  | .option q _ value => if q = p then some value else none
  | .operand _ | .dryRun => none

/-- An argument that may stand at this place of the command line, whatever else does.  Priorities
are given in decimal digits. -/
def Fits (level : Level) : Argument → Prop
  | .operand word => Plain word
  | .option p _ value =>
      p ∈ level.options ∧ p ∈ valuedOptions ∧ Plain value ∧
        (p = .priority → ∃ k < 0x100000000, value = toString k)
  | .dryRun => .dryRun ∈ level.options

end Argument

section Lists

/-- The words of arguments, in their order. -/
def words (arguments : List Argument) : List String := arguments.flatMap Argument.words

def operands (arguments : List Argument) : List String := arguments.filterMap Argument.operand?

/-- The values that are given for an option. -/
def values (p : Parameter) (arguments : List Argument) : List String :=
  arguments.filterMap (Argument.value? p)

/-- Arguments that may stand together: no option is given twice. -/
structure Orderly (level : Level) (arguments : List Argument) : Prop where
  fits : ∀ a ∈ arguments, a.Fits level
  once : ∀ p ∈ valuedOptions, (values p arguments).length ≤ 1
  dryRun : arguments.count .dryRun ≤ 1

variable {level : Level} {arguments : List Argument} {a : Argument} {p : Parameter}

@[simp] theorem words_concat : words (arguments ++ [a]) = words arguments ++ a.words := by
  simp [words]

@[simp] theorem operands_concat :
    operands (arguments ++ [a]) = operands arguments ++ a.operand?.toList := by
  cases h : a.operand? <;> simp [operands, h]

@[simp] theorem values_concat :
    values p (arguments ++ [a]) = values p arguments ++ (a.value? p).toList := by
  cases h : a.value? p <;> simp [values, h]

theorem Orderly.of_concat (h : Orderly level (arguments ++ [a])) : Orderly level arguments := by
  refine ⟨fun b hb => h.fits b (List.mem_append_left _ hb), fun p valued => ?_, ?_⟩
  · have hp := h.once p valued
    simp only [values_concat, List.length_append] at hp
    omega
  · have hd := h.dryRun
    rw [List.count_append] at hd
    omega

end Lists

/-! ## One argument -/

variable {level : Level} {p : Parameter}

/-- The values, with those of the options as the arguments give them. -/
def Values.withOptions (v : Values) (arguments : List Argument) : Values :=
  { v with
    config := (values .config arguments).head?
    adminAddress := (values .adminAddress arguments).head?
    priority := (values .priority arguments).head?.bind natural?
    dryRun := decide (.dryRun ∈ arguments) }

/-- Takes an operand for the parameter that comes next; members take any number of them. -/
def takeOperand : Values × List Parameter → String → Except UsageError (Values × List Parameter)
  | (_, []), _ => .error .unknownArgument
  | (v, p :: rest), word => do
      let v ← v.put p word
      return (v, if p = .members then p :: rest else rest)

/-- No parameter among these is an option. -/
def OperandsOnly (parameters : List Parameter) : Prop := ∀ p ∈ parameters, p.optionName? = none

theorem takeOperand_eq_ok_iff {v v' : Values} {rest coming : List Parameter} {word : String} :
    takeOperand (v, p :: rest) word = .ok (v', coming) ↔
      v.put p word = .ok v' ∧ (if p = .members then p :: rest else rest) = coming := by
  cases hput : v.put p word <;> simp [takeOperand, hput]

section Values

variable {v v' : Values} {arguments : List Argument} {a : Argument} {word value : String}
  {spelling : Spelling}

theorem withOptions_operand :
    v.withOptions (arguments ++ [.operand word]) = v.withOptions arguments := by
  simp [Values.withOptions, Argument.value?]

theorem put_partition_eq_ok_iff : v.put .partition word = .ok v' ↔
    ∃ n, number32 word = .ok n ∧ { v with partition := some n } = v' := by
  cases h : number32 word <;> simp [Values.put, h]

theorem put_change_eq_ok_iff : v.put .change word = .ok v' ↔
    ∃ n, number64 word = .ok n ∧ { v with change := some n } = v' := by
  cases h : number64 word <;> simp [Values.put, h]

/-- The options do not matter to the operands. -/
theorem put_withOptions (unnamed : p.optionName? = none) (h : v.put p word = .ok v') :
    (v.withOptions arguments).put p word = .ok (v'.withOptions arguments) := by
  cases p with
  | members =>
      obtain rfl := Except.ok.inj h
      rfl
  | member =>
      obtain rfl := Except.ok.inj h
      rfl
  | partition =>
      rcases put_partition_eq_ok_iff.1 h with ⟨n, hn, rfl⟩
      exact put_partition_eq_ok_iff.2 ⟨n, hn, rfl⟩
  | change =>
      rcases put_change_eq_ok_iff.1 h with ⟨n, hn, rfl⟩
      exact put_change_eq_ok_iff.2 ⟨n, hn, rfl⟩
  | config | adminAddress | priority | dryRun | help => simp [Parameter.optionName?] at unnamed

/-- An option that was not given before is kept. -/
theorem keep_withOptions (fits : (Argument.option p spelling value).Fits level)
    (once : (values p (arguments ++ [.option p spelling value])).length ≤ 1) :
    (v.withOptions arguments).keep p [value] =
      .ok (v.withOptions (arguments ++ [.option p spelling value])) := by
  rcases fits with ⟨-, valued, plain, hnumber⟩
  have hnew : values p arguments = [] := by
    rw [values_concat, Argument.value?, if_pos rfl, List.length_append] at once
    exact List.length_eq_zero_iff.1 (by simpa using once)
  simp only [valuedOptions, List.mem_cons, List.not_mem_nil, or_false] at valued
  rcases valued with rfl | rfl | rfl
  · simp [Values.keep, Values.has, Values.put, Values.withOptions, Argument.value?, hnew, plain.1,
      String.isEmpty_iff]
  · simp [Values.keep, Values.has, Values.put, Values.withOptions, Argument.value?, hnew]
  · rcases hnumber rfl with ⟨k, hk, hvalue⟩
    have hread : number32 value = .ok k := hvalue ▸ number32_toString hk
    have hnatural : natural? value = some k := hvalue ▸ natural?_toString k
    simp [Values.keep, Values.has, Values.put, Values.withOptions, Argument.value?, hnew, hread,
      hnatural]

theorem keep_singleton (unnamed : p.optionName? = none) : v.keep p [word] = v.put p word := by
  cases hput : v.put p word <;>
    simp [Values.keep, unnamed, hput]

/-- A member more in a group comes to the same as a member of its own. -/
theorem keep_members_concat {words : List String} (h : v.keep .members words = .ok v') :
    v.keep .members (words ++ [word]) = v'.put .members word := by
  unfold Values.keep at h ⊢
  cases hempty : words.isEmpty with
  | true => simp [hempty] at h
  | false =>
      have hfold : words.foldlM (fun v word => v.put .members word) v = .ok v' := by
        simpa [hempty, Parameter.optionName?] using h
      simp only [List.foldlM_append, hfold, Parameter.optionName?]
      cases hput : v'.put .members word <;> simp [hput]

end Values

namespace Scan

/-- Between two arguments no value is waited for, and all that was found comes to these values once
it is checked; these are the operands to come. -/
structure Ready (s : Scan) (v : Values) (coming : List Parameter) : Prop where
  awaiting : s.awaiting = false
  onlyOperands : s.onlyOperands = false
  operands : s.operands = coming
  settle : s.settle = .ok { s with values := v, pending := none }
  /-- A group of members is open only while members may come. -/
  group : ∀ words, s.pending = some (.members, words) → ∃ more, coming = .members :: more

theorem ready_start (level : Level) : (start level).Ready {} level.operands :=
  ⟨rfl, rfl, rfl, rfl, by simp [start]⟩

/-- The next operand is one more member of the group that is open. -/
theorem operand_of_open {s : Scan} {rest : List Parameter} {words : List String} {word : String}
    (coming : s.operands = p :: rest) (group : s.pending = some (.members, words)) :
    s.operand level word =
      .ok { s with pending := some (.members, words ++ [word]), awaiting := false } := by
  simp [operand, coming, group]

theorem operand_of_closed {s : Scan} {rest : List Parameter} {word : String}
    (coming : s.operands = p :: rest) (closed : ∀ words, s.pending ≠ some (.members, words)) :
    s.operand level word = do
      let s ← s.settle
      return { s with
        pending := some (p, [word])
        awaiting := false
        operands := if p = .members then s.operands else rest } := by
  unfold operand
  rw [coming]
  dsimp only
  split
  · next words hwords => exact absurd hwords (closed words)
  · rfl

theorem keep_of_settle {s : Scan} {v : Values} {words : List String}
    (pending : s.pending = some (p, words))
    (h : s.settle = .ok { s with values := v, pending := none }) :
    s.values.keep p words = .ok v := by
  cases hkeep : s.values.keep p words with
  | error e => simp [settle, pending, hkeep] at h
  | ok u => simpa [settle, pending, hkeep] using h

namespace Ready

variable {s : Scan} {v v' : Values} {coming coming' : List Parameter} {word value : String}
  {spelling : Spelling}

/-- The word joins the open group of members, or is an operand of its own. -/
theorem operand (level : Level) (ready : s.Ready v coming) (plain : Plain word)
    (unnamed : OperandsOnly coming) (h : takeOperand (v, coming) word = .ok (v', coming')) :
    ∃ s', s.step level word = .ok s' ∧ s'.Ready v' coming' := by
  rw [step_of_plain ready.onlyOperands plain, ready.awaiting, if_neg (by decide)]
  cases coming with
  | nil => simp [takeOperand] at h
  | cons p rest =>
      rcases takeOperand_eq_ok_iff.1 h with ⟨hput, hcoming⟩
      by_cases hopen : ∃ words, s.pending = some (.members, words)
      · rcases hopen with ⟨words, hwords⟩
        obtain rfl : p = .members := by simpa using ready.group words hwords
        refine ⟨{ s with pending := some (.members, words ++ [word]), awaiting := false }, ?_, ?_⟩
        · exact operand_of_open ready.operands hwords
        · have hgroup : s.values.keep .members words = .ok v := keep_of_settle hwords ready.settle
          refine ⟨rfl, ready.onlyOperands, ?_, ?_, fun _ _ => ⟨rest, hcoming ▸ rfl⟩⟩
          · simpa using ready.operands.trans hcoming
          · simp [Scan.settle, keep_members_concat hgroup, hput]
      · refine ⟨{ s with
            values := v
            pending := some (p, [word])
            awaiting := false
            operands := coming' }, ?_, ?_⟩
        · rw [operand_of_closed ready.operands fun words hwords => hopen ⟨words, hwords⟩,
            ready.settle, ← hcoming]
          simp [ready.operands]
        · refine ⟨rfl, ready.onlyOperands, rfl, ?_, ?_⟩
          · simp [Scan.settle, keep_singleton (unnamed p List.mem_cons_self), hput]
          · intro words hwords
            have hp : p = .members := by simpa using congrArg (Option.map Prod.fst) hwords
            exact ⟨rest, by simp [← hcoming, hp]⟩

theorem attached (ready : s.Ready v coming)
    (fits : (Argument.option p spelling value).Fits level) (kept : v.keep p [value] = .ok v') :
    ∃ s', s.step level ("--" ++ p.optionName ++ "=" ++ value) = .ok s' ∧ s'.Ready v' coming := by
  rcases fits with ⟨offered, valued, -, -⟩
  rcases optionName_of_valued valued with ⟨hname, -, -, htakes⟩
  refine ⟨{ s with values := v', pending := none, awaiting := false }, ?_, ?_⟩
  · rw [step_attached ready.onlyOperands valued, option, find?_option offered hname]
    simp [htakes, ready.settle, kept]
  · exact ⟨rfl, ready.onlyOperands, ready.operands, rfl, by simp⟩

/-- The scan waits for the value between the two words. -/
theorem apart (ready : s.Ready v coming)
    (fits : (Argument.option p spelling value).Fits level) (kept : v.keep p [value] = .ok v') :
    ∃ s₁ s', s.step level ("--" ++ p.optionName) = .ok s₁ ∧ s₁.awaiting = true ∧
      s₁.step level value = .ok s' ∧ s'.Ready v' coming := by
  rcases fits with ⟨offered, valued, plain, -⟩
  rcases optionName_of_valued valued with ⟨hname, -, -, htakes⟩
  refine ⟨{ s with values := v, pending := some (p, []), awaiting := true },
    { s with values := v, pending := some (p, [value]), awaiting := false }, ?_, rfl, ?_, ?_⟩
  · rw [step_apart ready.onlyOperands valued, option, find?_option offered hname]
    simp [htakes, ready.settle]
  · have honly : ({ s with values := v, pending := some (p, []), awaiting := true } :
        Scan).onlyOperands = false := ready.onlyOperands
    rw [step_of_plain honly plain]
    rfl
  · refine ⟨rfl, ready.onlyOperands, ready.operands, ?_, ?_⟩
    · simp [Scan.settle, kept]
    · intro words hwords
      have hp : p = .members := by simpa using congrArg (Option.map Prod.fst) hwords
      simp [hp, valuedOptions] at valued

theorem dryRun (ready : s.Ready v coming) (offered : .dryRun ∈ level.options)
    (new : v.dryRun = false) :
    ∃ s', s.step level "--dry-run" = .ok s' ∧ s'.Ready { v with dryRun := true } coming := by
  refine ⟨{ s with values := { v with dryRun := true }, pending := none, awaiting := false },
    ?_, ?_⟩
  · have hname : Parameter.dryRun.optionName? = some "dry-run" := rfl
    rw [step_dryRun ready.onlyOperands, option, find?_option offered hname]
    simp [Parameter.takesValue, ready.settle, new]
  · exact ⟨rfl, ready.onlyOperands, ready.operands, rfl, by simp⟩

end Ready

end Scan

/-! ## Any number of arguments -/

section Runs

variable {arguments : List Argument} {v : Values} {coming : List Parameter}

theorem withOptions_dryRun :
    v.withOptions (arguments ++ [.dryRun]) = { v.withOptions arguments with dryRun := true } := by
  simp [Values.withOptions, Argument.value?]

theorem Orderly.new_dryRun (orderly : Orderly level (arguments ++ [.dryRun])) :
    (v.withOptions arguments).dryRun = false := by
  have hcount := orderly.dryRun
  rw [List.count_append, List.count_singleton_self] at hcount
  have hnone : arguments.count .dryRun = 0 := by omega
  simpa [Values.withOptions] using List.count_eq_zero.1 hnone

theorem takeOperand_withOptions {v' : Values} {word : String} {coming' : List Parameter}
    (unnamed : OperandsOnly coming) (h : takeOperand (v, coming) word = .ok (v', coming')) :
    takeOperand (v.withOptions arguments, coming) word =
        .ok (v'.withOptions arguments, coming') ∧ OperandsOnly coming' := by
  cases coming with
  | nil => simp [takeOperand] at h
  | cons p rest =>
      rcases takeOperand_eq_ok_iff.1 h with ⟨hput, hcoming⟩
      refine ⟨takeOperand_eq_ok_iff.2 ⟨?_, hcoming⟩, ?_⟩
      · exact put_withOptions (unnamed p List.mem_cons_self) hput
      · rw [← hcoming]
        split
        · exact unnamed
        · exact fun q hq => unnamed q (List.mem_cons_of_mem p hq)

/-- The words of orderly arguments are scanned, if the operands among them can be taken in their
order, and the scan is ready for more. -/
theorem scan_words (orderly : Orderly level arguments) (unnamed : OperandsOnly level.operands)
    (taken : (operands arguments).foldlM takeOperand ({}, level.operands) = .ok (v, coming)) :
    ∃ s, (words arguments).foldlM (Scan.step level) (.start level) = .ok s ∧
      s.Ready (v.withOptions arguments) coming ∧ OperandsOnly coming := by
  -- By induction on the arguments so far; the last one makes the step.
  induction arguments using List.reverseRecOn generalizing v coming with
  | nil =>
      have hstart : ({}, level.operands) = (v, coming) := Except.ok.inj taken
      obtain ⟨rfl, rfl⟩ := Prod.mk.inj hstart
      exact ⟨_, rfl, Scan.ready_start level, unnamed⟩
  | append_singleton arguments a ih =>
      have hfits := orderly.fits a (by simp)
      rw [operands_concat] at taken
      rw [words_concat]
      cases a with
      | operand word =>
          rcases foldlM_append_eq_ok_iff.1 taken with ⟨⟨v₀, coming₀⟩, hbefore, hword⟩
          have hword : takeOperand (v₀, coming₀) word = .ok (v, coming) := by
            simpa [Argument.operand?] using hword
          rcases ih orderly.of_concat hbefore with ⟨s, hs, ready, hcoming⟩
          rcases takeOperand_withOptions hcoming hword with ⟨htaken, hcoming'⟩
          rcases ready.operand level hfits hcoming htaken with ⟨s', hstep, hready⟩
          refine ⟨s', foldlM_append_eq_ok_iff.2 ⟨s, hs, ?_⟩, ?_, hcoming'⟩
          · simp [Argument.words, hstep]
          · rwa [withOptions_operand]
      | option p spelling value =>
          rcases ih orderly.of_concat (by simpa [Argument.operand?] using taken) with
            ⟨s, hs, ready, hcoming⟩
          have hkept := keep_withOptions (v := v) hfits (orderly.once p hfits.2.1)
          cases spelling with
          | apart =>
              rcases ready.apart hfits hkept with ⟨s₁, s', hfirst, -, hsecond, hready⟩
              refine ⟨s', foldlM_append_eq_ok_iff.2 ⟨s, hs, ?_⟩, hready, hcoming⟩
              simp [Argument.words, hfirst, hsecond]
          | attached =>
              rcases ready.attached hfits hkept with ⟨s', hstep, hready⟩
              refine ⟨s', foldlM_append_eq_ok_iff.2 ⟨s, hs, ?_⟩, hready, hcoming⟩
              simp [Argument.words, hstep]
      | dryRun =>
          rcases ih orderly.of_concat (by simpa [Argument.operand?] using taken) with
            ⟨s, hs, ready, hcoming⟩
          rcases ready.dryRun hfits orderly.new_dryRun with ⟨s', hstep, hready⟩
          refine ⟨s', foldlM_append_eq_ok_iff.2 ⟨s, hs, ?_⟩, withOptions_dryRun ▸ hready, hcoming⟩
          simp [Argument.words, hstep]

/-- What follows a command is scanned to the values that it comes to. -/
theorem scanAfter_words {verb : Verb} (orderly : Orderly (.after verb) arguments)
    (taken : (operands arguments).foldlM takeOperand ({}, verb.operands) = .ok (v, coming)) :
    scanAfter verb (words arguments) = .ok (v.withOptions arguments) := by
  have hunnamed : OperandsOnly (Level.after verb).operands := by
    unfold OperandsOnly
    cases verb <;> decide
  rcases scan_words orderly hunnamed taken with ⟨s, hs, ready, -⟩
  simp [scanAfter, hs, ready.settle]

/-! ## In front of the command -/

theorem ofName?_name (verb : Verb) : Verb.ofName? verb.name = some verb := by
  cases verb <;> decide

theorem ofName?_of_hyphen {word : String} (hyphen : word.toList.head? = some '-') :
    Verb.ofName? word = none ∧ word ≠ "help" := by
  refine ⟨?_, ?_⟩
  · cases hverb : Verb.ofName? word with
    | none => rfl
    | some verb =>
        have hname : verb.name = word := by simpa using List.find?_some hverb
        rw [← hname] at hyphen
        revert hyphen
        cases verb <;> decide
  · rintro rfl
    revert hyphen
    decide

/-- A word that is an option, or the value for which the scan waits, is no command. -/
theorem scanTop_of_step {s s' : Scan} {word : String} (rest : List String)
    (option : s.awaiting = true ∨ word.toList.head? = some '-')
    (step : s.step .top word = .ok s') : scanTop s (word :: rest) = scanTop s' rest := by
  have hadvance : scanTop.advance s word rest = scanTop s' rest := by
    simp [scanTop.advance, step]
  rw [scanTop]
  rcases option with hawaiting | hhyphen
  · split
    · simp [hawaiting, hadvance]
    · simp [hawaiting, hadvance]
  · rcases ofName?_of_hyphen hhyphen with ⟨hverb, hhelp⟩
    simp [hverb, hhelp, hadvance]

theorem scanTop_name {s : Scan} {v : Values} (ready : s.Ready v coming) (verb : Verb)
    (rest : List String) : scanTop s (verb.name :: rest) = .ok (s, some (verb, rest)) := by
  rw [scanTop, ofName?_name]
  simp [ready.awaiting, ready.onlyOperands]

/-- Options in front of a command are scanned to the values that they come to. -/
theorem scanTop_words (orderly : Orderly .top arguments) (options : operands arguments = []) :
    ∃ s, s.Ready (({} : Values).withOptions arguments) [] ∧
      ∀ rest, scanTop (.start .top) (words arguments ++ rest) = scanTop s rest := by
  induction arguments using List.reverseRecOn with
  | nil => exact ⟨_, Scan.ready_start .top, fun rest => rfl⟩
  | append_singleton arguments a ih =>
      have hfits := orderly.fits a (by simp)
      rw [operands_concat, List.append_eq_nil_iff] at options
      rcases ih orderly.of_concat options.1 with ⟨s, ready, hs⟩
      cases a with
      | operand word => simp [Argument.operand?] at options
      | dryRun => simp [Argument.Fits, Level.top, commonOptions] at hfits
      | option p spelling value =>
          have hkept := keep_withOptions (v := {}) hfits (orderly.once p hfits.2.1)
          cases spelling with
          | apart =>
              rcases ready.apart hfits hkept with ⟨s₁, s', hfirst, hawaiting, hsecond, hready⟩
              refine ⟨s', hready, fun rest => ?_⟩
              rw [words_concat, List.append_assoc, hs]
              exact (scanTop_of_step _ (.inr (by simp)) hfirst).trans
                (scanTop_of_step _ (.inl hawaiting) hsecond)
          | attached =>
              rcases ready.attached hfits hkept with ⟨s', hstep, hready⟩
              refine ⟨s', hready, fun rest => ?_⟩
              rw [words_concat, List.append_assoc, hs]
              exact scanTop_of_step _ (.inr (by simp)) hstep

end Runs

end CommandLine

end ReplicaCluster
