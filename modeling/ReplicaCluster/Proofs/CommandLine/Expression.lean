import ReplicaCluster.Proofs.CommandLine.Arguments
import ReplicaCluster.Proofs.Management.Handler

/-!
# Requests on the command line

Every management request can be given on the command line.  Its command is followed by its ids and
numbers in their order; the flag for a dry run and the priority stand anywhere between them, and
the options of the node itself there or in front of the command (`Expresses`).  However these are
arranged, the command line is understood as that request (`expressed_is_understood`).
-/

namespace ReplicaCluster

open CommandLine (Argument Plain Values Verb)

namespace Request

/-- The command of a request. -/
def verb : Request → Verb
  | .addMembers .. => .addMembers
  | .removeMembers .. => .removeMembers
  | .joinPartition .. => .joinPartition
  | .leavePartition .. => .leavePartition
  | .reassign .. => .reassign
  | .scale .. => .scale
  | .cancel _ => .cancel
  | .forceOverwrite _ => .forceOverwrite
  | .topology => .topology

/-- The ids and the numbers of a request, in their order; numbers have decimal digits. -/
def operands : Request → List String
  | .addMembers members _ | .removeMembers members _ | .reassign members _ | .scale members _
  | .forceOverwrite members => members
  | .joinPartition member p _ _ | .leavePartition member p _ => [member, toString p]
  | .cancel change => [toString change]
  | .topology => []

/-- The priority of a request, which is 1 where the request has none. -/
def priority : Request → Priority
  | .joinPartition _ _ priority _ => priority
  | _ => 1

def withPriority (k : Priority) : Request → Request
  | .joinPartition member p _ dryRun => .joinPartition member p k dryRun
  | r => r

/-- The ids stand for themselves on a command line, groups of members are not empty, and numbers
have the widths that the format of requests has for them. -/
def Expressible : Request → Prop
  | .addMembers members _ | .removeMembers members _ | .reassign members _ | .scale members _
  | .forceOverwrite members => members ≠ [] ∧ ∀ id ∈ members, Plain id
  | .joinPartition member p priority _ =>
      Plain member ∧ p < 0x100000000 ∧ priority < 0x100000000
  | .leavePartition member p _ => Plain member ∧ p < 0x100000000
  | .cancel change => change < 0x10000000000000000
  | .topology => True

theorem withPriority_priority (r : Request) : r.withPriority r.priority = r := by
  cases r <;> rfl

theorem withPriority_one_iff {r : Request} : r.withPriority 1 = r ↔ r.priority = 1 := by
  cases r <;> simp [withPriority, priority, eq_comm]

theorem priority_lt (r : Request) (expressible : r.Expressible) : r.priority < 0x100000000 := by
  cases r with
  | joinPartition member p priority dryRun => exact expressible.2.2
  | _ => exact (by decide : 1 < 0x100000000)

/-- The flag is known to the commands of the requests that have it. -/
theorem dryRun_mem_options {r : Request} (h : r.isDryRun = true) :
    .dryRun ∈ (CommandLine.Level.after r.verb).options := by
  cases r <;>
    simp_all [isDryRun, verb, CommandLine.Level.after, Verb.ownOptions]

/-- What the operands of a request come to. -/
def operandValues : Request → Values
  | .addMembers members _ | .removeMembers members _ | .reassign members _ | .scale members _
  | .forceOverwrite members => { members }
  | .joinPartition member p _ _ | .leavePartition member p _ =>
      { member := some member, partition := some p }
  | .cancel change => { change := some change }
  | .topology => {}

end Request

namespace CommandLine

/-- The options of the node itself. -/
def nodeOptions : List Parameter := [.config, .adminAddress]

/-- Arguments in front of the command and behind it express a request. -/
structure Expresses (before after : List Argument) (r : Request) : Prop where
  /-- The ids and numbers of the request stand behind the command, in their order. -/
  operands : operands after = r.operands
  /-- The flag for a dry run is there just if the request asks for one. -/
  dryRun : after.count .dryRun = if r.isDryRun then 1 else 0
  /-- The priority of a new replica may be given. -/
  priority : values .priority after = [] ∨
    r.verb = .joinPartition ∧ values .priority after = [toString r.priority]
  /-- Besides, the options of the node may stand behind the command, with any value, -/
  behind : ∀ p spelling value, .option p spelling value ∈ after →
    p = .priority ∨ p ∈ nodeOptions ∧ Plain value
  /-- and so they may in front of it, where nothing else does. -/
  front : ∀ a ∈ before, ∃ p spelling value,
    a = .option p spelling value ∧ p ∈ nodeOptions ∧ Plain value
  /-- None of them is given twice in one place. -/
  once : ∀ p ∈ nodeOptions, (values p before).length ≤ 1 ∧ (values p after).length ≤ 1

variable {before after : List Argument} {r : Request}

theorem plain_of_mem_operands (expressible : r.Expressible) {word : String}
    (h : word ∈ r.operands) : Plain word := by
  cases r with
  | addMembers members _ => exact expressible.2 word h
  | removeMembers members _ => exact expressible.2 word h
  | reassign members _ => exact expressible.2 word h
  | scale members _ => exact expressible.2 word h
  | forceOverwrite members => exact expressible.2 word h
  | joinPartition member p _ _ =>
      have hword : word = member ∨ word = toString p := by simpa [Request.operands] using h
      rcases hword with rfl | rfl
      · exact expressible.1
      · exact plain_toString p
  | leavePartition member p _ =>
      have hword : word = member ∨ word = toString p := by simpa [Request.operands] using h
      rcases hword with rfl | rfl
      · exact expressible.1
      · exact plain_toString p
  | cancel change =>
      rw [List.mem_singleton.1 h]
      exact plain_toString change
  | topology => simp [Request.operands] at h

theorem foldlM_members (members : List String) :
    ∀ v : Values, members.foldlM takeOperand (v, [.members]) =
      .ok ({ v with members := v.members ++ members }, [.members]) := by
  induction members with
  | nil =>
      intro v
      simp
  | cons id rest ih =>
      intro v
      have htake : takeOperand (v, [.members]) id =
          .ok ({ v with members := v.members ++ [id] }, [.members]) := rfl
      rw [List.foldlM_cons, htake]
      simp [ih]

theorem foldlM_place (member : String) {p : PartitionId} (h : p < 0x100000000) :
    [member, toString p].foldlM takeOperand ({}, [.member, .partition]) =
      .ok ({ member := some member, partition := some p }, []) := by
  have hmember : takeOperand ({}, [.member, .partition]) member =
      .ok ({ member := some member }, [.partition]) := rfl
  have hpartition : takeOperand ({ member := some member }, [.partition]) (toString p) =
      .ok ({ member := some member, partition := some p }, []) := by
    refine takeOperand_eq_ok_iff.2 ⟨?_, rfl⟩
    exact put_partition_eq_ok_iff.2 ⟨p, number32_toString h, rfl⟩
  simp only [List.foldlM_cons, List.foldlM_nil, hmember, hpartition, ok_bind, pure_eq_ok]

theorem foldlM_change {change : Nat} (h : change < 0x10000000000000000) :
    [toString change].foldlM takeOperand ({}, [.change]) =
      .ok ({ change := some change }, []) := by
  have hchange : takeOperand ({}, [.change]) (toString change) =
      .ok ({ change := some change }, []) := by
    refine takeOperand_eq_ok_iff.2 ⟨?_, rfl⟩
    exact put_change_eq_ok_iff.2 ⟨change, number64_toString h, rfl⟩
  simp only [List.foldlM_cons, List.foldlM_nil, hchange, ok_bind, pure_eq_ok]

theorem operands_taken (expressible : r.Expressible) :
    ∃ coming, r.operands.foldlM takeOperand ({}, r.verb.operands) =
      .ok (r.operandValues, coming) := by
  cases r with
  | addMembers members _ => exact ⟨_, foldlM_members members {}⟩
  | removeMembers members _ => exact ⟨_, foldlM_members members {}⟩
  | reassign members _ => exact ⟨_, foldlM_members members {}⟩
  | scale members _ => exact ⟨_, foldlM_members members {}⟩
  | forceOverwrite members => exact ⟨_, foldlM_members members {}⟩
  | joinPartition member p _ _ => exact ⟨_, foldlM_place member expressible.2.1⟩
  | leavePartition member p _ => exact ⟨_, foldlM_place member expressible.2⟩
  | cancel change => exact ⟨_, foldlM_change expressible⟩
  | topology => exact ⟨_, rfl⟩

theorem request_withOptions (expressible : r.Expressible)
    (dryRun : decide (.dryRun ∈ after) = r.isDryRun) :
    r.verb.request (r.operandValues.withOptions after) =
      .ok (some (r.withPriority (((values .priority after).head?.bind natural?).getD 1))) := by
  cases r <;>
    simp_all [Verb.request, Request.verb, Request.operandValues, Values.withOptions,
      Request.isDryRun, Request.withPriority, Request.Expressible]

theorem mem_operands {arguments : List Argument} {word : String} :
    word ∈ operands arguments ↔ .operand word ∈ arguments := by
  simp only [operands, List.mem_filterMap]
  constructor
  · rintro ⟨a, ha, hword⟩
    cases a with
    | operand w => rwa [← Option.some.inj hword]
    | option p spelling value => simp [Argument.operand?] at hword
    | dryRun => simp [Argument.operand?] at hword
  · intro h
    exact ⟨_, h, rfl⟩

theorem mem_values {p : Parameter} {arguments : List Argument} {value : String} :
    value ∈ values p arguments ↔ ∃ spelling, .option p spelling value ∈ arguments := by
  simp only [values, List.mem_filterMap]
  constructor
  · rintro ⟨a, ha, hvalue⟩
    cases a with
    | operand w => simp [Argument.value?] at hvalue
    | dryRun => simp [Argument.value?] at hvalue
    | option q spelling v =>
        rw [Argument.value?, Option.ite_none_right_eq_some, Option.some.injEq] at hvalue
        rcases hvalue with ⟨rfl, rfl⟩
        exact ⟨spelling, ha⟩
  · rintro ⟨spelling, h⟩
    exact ⟨_, h, by simp [Argument.value?]⟩

theorem mem_nodeOptions {p : Parameter} : p ∈ nodeOptions ↔ p = .config ∨ p = .adminAddress := by
  simp [nodeOptions]

theorem mem_valuedOptions {p : Parameter} :
    p ∈ valuedOptions ↔ p ∈ nodeOptions ∨ p = .priority := by
  simp [valuedOptions, nodeOptions, or_assoc]

theorem mem_options_of_node {level : Level} {p : Parameter} (common : commonOptions ⊆ level.options)
    (h : p ∈ nodeOptions) : p ∈ level.options := by
  rcases mem_nodeOptions.1 h with rfl | rfl
  · exact common (by decide)
  · exact common (by decide)

namespace Expresses

theorem orderly_front (h : Expresses before after r) :
    Orderly .top before ∧ CommandLine.operands before = [] := by
  have hnone (p : Parameter) (hp : p ∉ nodeOptions) : values p before = [] := by
    rw [List.eq_nil_iff_forall_not_mem]
    intro value hvalue
    rcases mem_values.1 hvalue with ⟨spelling, hmem⟩
    rcases h.front _ hmem with ⟨q, _, _, hq, hnode, -⟩
    obtain ⟨rfl, -, -⟩ := Argument.option.inj hq
    exact hp hnode
  refine ⟨⟨?_, ?_, ?_⟩, ?_⟩
  · intro a ha
    rcases h.front a ha with ⟨p, spelling, value, rfl, hp, plain⟩
    refine ⟨mem_options_of_node (List.Subset.refl _) hp, mem_valuedOptions.2 (.inl hp), plain, ?_⟩
    rintro rfl
    exact absurd hp (by decide)
  · intro p hp
    rcases mem_valuedOptions.1 hp with hnode | rfl
    · exact (h.once p hnode).1
    · rw [hnone .priority (by decide)]
      exact Nat.zero_le 1
  · have hdryRun : .dryRun ∉ before := by
      intro hmem
      rcases h.front _ hmem with ⟨_, _, _, hoption, -⟩
      cases hoption
    rw [List.count_eq_zero.2 hdryRun]
    exact Nat.zero_le 1
  · rw [List.eq_nil_iff_forall_not_mem]
    intro word hword
    rcases h.front _ (mem_operands.1 hword) with ⟨_, _, _, hoption, -⟩
    cases hoption

theorem isDryRun_iff (h : Expresses before after r) :
    .dryRun ∈ after ↔ r.isDryRun = true := by
  rw [← List.count_pos_iff, h.dryRun]
  split <;> simp_all

theorem orderly_behind (expressible : r.Expressible) (h : Expresses before after r) :
    Orderly (.after r.verb) after := by
  have hcommon : commonOptions ⊆ (Level.after r.verb).options := List.subset_append_left _ _
  refine ⟨?_, ?_, ?_⟩
  · intro a ha
    cases a with
    | operand word =>
        have hword : word ∈ r.operands := h.operands ▸ mem_operands.2 ha
        exact plain_of_mem_operands expressible hword
    | dryRun => exact Request.dryRun_mem_options (h.isDryRun_iff.1 ha)
    | option p spelling value =>
        rcases h.behind p spelling value ha with rfl | ⟨hnode, plain⟩
        · rcases h.priority with hnone | ⟨hverb, hgiven⟩
          · simpa [hnone] using mem_values.2 ⟨spelling, ha⟩
          · have hvalue : value = toString r.priority := by
              simpa [hgiven] using mem_values.2 ⟨spelling, ha⟩
            rw [hverb, hvalue]
            exact ⟨by decide, by decide, plain_toString _,
              fun _ => ⟨_, r.priority_lt expressible, rfl⟩⟩
        · refine ⟨mem_options_of_node hcommon hnode, mem_valuedOptions.2 (.inl hnode), plain, ?_⟩
          rintro rfl
          exact absurd hnode (by decide)
  · intro p hp
    rcases mem_valuedOptions.1 hp with hnode | rfl
    · exact (h.once p hnode).2
    · rcases h.priority with hnone | ⟨-, hgiven⟩
      · simp [hnone]
      · simp [hgiven]
  · rw [h.dryRun]
    split <;> decide

/-- What the command line comes to, with the priority that is given or 1. -/
theorem parse_eq (expressible : r.Expressible) (h : Expresses before after r) :
    parse (words before ++ r.verb.name :: words after) = .ok {
      config := (values .config after).head? <|> (values .config before).head?
      adminAddress := (values .adminAddress after).head? <|> (values .adminAddress before).head?
      request := some
        (r.withPriority (((values .priority after).head?.bind natural?).getD 1)) } := by
  rcases scanTop_words h.orderly_front.1 h.orderly_front.2 with ⟨s, ready, htop⟩
  rcases operands_taken expressible with ⟨coming, htaken⟩
  have hafter := scanAfter_words (h.orderly_behind expressible) (h.operands.symm ▸ htaken)
  have hdryRun : decide (.dryRun ∈ after) = r.isDryRun := by
    simp [h.isDryRun_iff]
  have hrequest := request_withOptions expressible hdryRun
  unfold parse
  rw [htop, scanTop_name ready]
  simp only [hafter, hrequest, ready.settle, ok_bind, pure_eq_ok]
  rfl

end Expresses

/-- The plainest way to express a request. -/
def argumentsOf (r : Request) : List Argument :=
  r.operands.map .operand ++ (if r.isDryRun then [.dryRun] else []) ++
    if r.verb = .joinPartition then [.option .priority .apart (toString r.priority)] else []

theorem mem_argumentsOf {a : Argument} (h : a ∈ argumentsOf r) :
    (∃ word ∈ r.operands, a = .operand word) ∨ (r.isDryRun = true ∧ a = .dryRun) ∨
      r.verb = .joinPartition ∧ a = .option .priority .apart (toString r.priority) := by
  simp only [argumentsOf, List.mem_append, List.mem_map] at h
  rcases h with (⟨word, hword, rfl⟩ | hdryRun) | hpriority
  · exact .inl ⟨word, hword, rfl⟩
  · split at hdryRun
    · next hr => exact .inr (.inl ⟨hr, List.mem_singleton.1 hdryRun⟩)
    · simp at hdryRun
  · split at hpriority
    · next hr => exact .inr (.inr ⟨hr, List.mem_singleton.1 hpriority⟩)
    · simp at hpriority

theorem operands_argumentsOf (r : Request) : operands (argumentsOf r) = r.operands := by
  have hoperands : (r.operands.map Argument.operand).filterMap Argument.operand? = r.operands := by
    simp [List.filterMap_map, Function.comp_def, Argument.operand?]
  have hflag : (if r.isDryRun then [Argument.dryRun] else []).filterMap Argument.operand? = [] := by
    split <;> rfl
  rw [operands, argumentsOf, List.filterMap_append, List.filterMap_append, hoperands, hflag,
    List.append_nil]
  split
  · exact List.append_nil r.operands
  · exact List.append_nil r.operands

theorem values_argumentsOf (r : Request) (p : Parameter) :
    values p (argumentsOf r) =
      if p = .priority ∧ r.verb = .joinPartition then [toString r.priority] else [] := by
  have hoperands : (r.operands.map Argument.operand).filterMap (Argument.value? p) = [] := by
    simp [List.filterMap_map, Function.comp_def, Argument.value?]
  have hflag : (if r.isDryRun then [Argument.dryRun] else []).filterMap (Argument.value? p) =
      [] := by
    split <;> rfl
  rw [values, argumentsOf, List.filterMap_append, List.filterMap_append, hoperands, hflag]
  by_cases hp : p = .priority
  · subst hp
    split <;> simp_all [Argument.value?]
  · have hother : Parameter.priority ≠ p := fun h => hp h.symm
    split <;> simp [Argument.value?, hp, hother]

theorem count_dryRun_argumentsOf (r : Request) :
    (argumentsOf r).count .dryRun = if r.isDryRun then 1 else 0 := by
  have hoperands : (r.operands.map Argument.operand).count .dryRun = 0 :=
    List.count_eq_zero.2 (by simp)
  have hpriority : (if r.verb = .joinPartition then
      [Argument.option .priority .apart (toString r.priority)] else []).count .dryRun = 0 := by
    split
    · exact List.count_eq_zero.2 (by simp)
    · rfl
  rw [argumentsOf, List.count_append, List.count_append, hoperands, hpriority]
  cases r.isDryRun <;> rfl

theorem expresses_argumentsOf (r : Request) :
    Expresses [] (argumentsOf r) r ∧
      (r.verb = .joinPartition → values .priority (argumentsOf r) = [toString r.priority]) := by
  refine ⟨⟨operands_argumentsOf r, count_dryRun_argumentsOf r, ?_, ?_, by simp, ?_⟩, ?_⟩
  · rw [values_argumentsOf]
    split
    · next h => exact .inr ⟨h.2, rfl⟩
    · exact .inl rfl
  · intro p spelling value h
    rcases mem_argumentsOf h with ⟨_, -, hoption⟩ | ⟨-, hoption⟩ | ⟨-, hoption⟩
    · cases hoption
    · cases hoption
    · exact .inl (Argument.option.inj hoption).1
  · intro p hp
    have hother : p ≠ .priority := by
      rintro rfl
      exact absurd hp (by decide)
    rw [values_argumentsOf]
    simp [hother, values]
  · intro h
    rw [values_argumentsOf, if_pos ⟨rfl, h⟩]

/-- Every request with ids that can be told from options is expressed by some arguments, its
priority among them.  And whatever arguments express it, with its options anywhere between the
others, and those of the node on either side of the command, the command line is understood as that
request, unless the priority is left out and is not 1.  Of the options of the node, those behind the
command count. -/
theorem expressed_is_understood (r : Request) (expressible : r.Expressible) :
    (∃ arguments, Expresses [] arguments r ∧
      (r.verb = .joinPartition → values .priority arguments = [toString r.priority])) ∧
      ∀ before after, Expresses before after r →
        (parse (words before ++ r.verb.name :: words after) = .ok {
            config := (values .config after).head? <|> (values .config before).head?
            adminAddress :=
              (values .adminAddress after).head? <|> (values .adminAddress before).head?
            request := some r } ↔
          values .priority after ≠ [] ∨ r.priority = 1) := by
  refine ⟨⟨_, expresses_argumentsOf r⟩, fun before after h => ?_⟩
  rw [h.parse_eq expressible, Except.ok.injEq]
  simp only [Invocation.mk.injEq, true_and, Option.some.injEq]
  rcases h.priority with hnone | ⟨-, hgiven⟩
  · rw [hnone]
    simpa using Request.withPriority_one_iff
  · have hread : (values .priority after).head?.bind natural? = some r.priority := by
      rw [hgiven]
      exact natural?_toString r.priority
    rw [hread, hgiven]
    simpa using r.withPriority_priority

/-- A dry run of a join, for a member that is named as a command is.  The flag and the priority
stand before and between the operands, and the options of the node around the command. -/
theorem expressed_is_understood_join :
    let r : Request := .joinPartition "topology" 7 3 true
    let before : List Argument := [.option .config .apart "run", .option .adminAddress .apart "x"]
    let after : List Argument :=
      [.dryRun, .operand "topology", .option .priority .attached "3",
        .option .adminAddress .attached "help", .operand "7"]
    r.Expressible ∧ Expresses before after r ∧
      words before ++ r.verb.name :: words after =
        ["--config", "run", "--admin-addr", "x", "join-partition", "--dry-run", "topology",
          "--priority=3", "--admin-addr=help", "7"] ∧
      parse (words before ++ r.verb.name :: words after) =
        .ok { config := some "run", adminAddress := some "help", request := some r } := by
  intro r before after
  have expressible : r.Expressible := ⟨by decide, by decide, by decide⟩
  have expresses : Expresses before after r := by
    refine ⟨by decide, by decide, .inr ⟨rfl, by decide⟩, ?_, ?_, by decide⟩
    · intro p spelling value h
      have hoption : (p = .priority ∧ spelling = .attached ∧ value = "3") ∨
          p = .adminAddress ∧ spelling = .attached ∧ value = "help" := by
        simpa [after] using h
      rcases hoption with ⟨rfl, -, -⟩ | ⟨rfl, -, rfl⟩
      · exact .inl rfl
      · exact .inr ⟨by decide, by decide⟩
    · simp [before, nodeOptions, Plain]
  rcases expressed_is_understood r expressible with ⟨-, hunderstood⟩
  exact ⟨expressible, expresses, by decide,
    (hunderstood before after expresses).2 (.inl (by decide))⟩

end CommandLine

end ReplicaCluster
