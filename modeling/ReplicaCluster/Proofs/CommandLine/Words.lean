import Mathlib.Data.List.TakeWhile
import ReplicaCluster.CommandLine.Invocation

/-!
# Words on a command line

A word stands for itself, or is an option, by how it begins (`Scan.step_of_plain`,
`Scan.step_of_hyphens`).  An option is found by its name, its value may stand behind an equals sign
in the same word, and a number in decimal digits is read as that number.
-/

namespace ReplicaCluster

namespace CommandLine

/-! ## Results that may be errors -/

section Results

variable {α β : Type}

@[simp] theorem ok_bind (a : α) (next : α → Except UsageError β) :
    (Except.ok a >>= next) = next a := rfl

@[simp] theorem error_bind (e : UsageError) (next : α → Except UsageError β) :
    (Except.error e >>= next) = .error e := rfl

@[simp] theorem bind_ok (x : Except UsageError α) : (x >>= fun a => Except.ok a) = x := by
  cases x <;> rfl

@[simp] theorem pure_eq_ok (a : α) : (pure a : Except UsageError α) = .ok a := rfl

theorem foldlM_append_eq_ok_iff {f : β → α → Except UsageError β} {b c : β} {xs ys : List α} :
    (xs ++ ys).foldlM f b = .ok c ↔ ∃ a, xs.foldlM f b = .ok a ∧ ys.foldlM f a = .ok c := by
  rw [List.foldlM_append]
  cases xs.foldlM f b <;> simp

end Results

/-! ## Words that stand for themselves -/

/-- The words that stand for themselves: they are not empty and do not begin as an option does. -/
def Plain (word : String) : Prop := word ≠ "" ∧ word.toList.head? ≠ some '-'

instance (word : String) : Decidable (Plain word) := inferInstanceAs (Decidable (_ ∧ _))

theorem Plain.exists_toList {word : String} (plain : Plain word) :
    ∃ c rest, word.toList = c :: rest ∧ c ≠ '-' := by
  rcases plain with ⟨nonempty, hyphen⟩
  cases hword : word.toList with
  | nil => exact absurd (String.toList_eq_nil_iff.1 hword) nonempty
  | cons c rest => exact ⟨c, rest, rfl, by simpa [hword] using hyphen⟩

/-! ## Numbers -/

theorem digits_go {cs : List Char} (digits : ∀ c ∈ cs, c.isDigit = true) :
    ∀ n, digits?.go n cs = some (Nat.ofDigitChars 10 cs n) := by
  induction cs with
  | nil =>
      intro n
      rfl
  | cons c rest ih =>
      intro n
      rw [List.forall_mem_cons] at digits
      rw [digits?.go, if_pos digits.1, ih digits.2, Nat.ofDigitChars_cons]

/-- The decimal form of a number begins with a digit, and is read as the number. -/
theorem exists_toList_toString (n : Nat) :
    ∃ c rest, (toString n).toList = c :: rest ∧ c.isDigit = true ∧
      digits? (c :: rest) = some n := by
  have hdigits : ∀ c ∈ Nat.toDigits 10 n, c.isDigit = true :=
    fun c hc => Nat.isDigit_of_mem_toDigits (by decide) (by decide) hc
  have hread : digits?.go 0 (Nat.toDigits 10 n) = some n := by
    rw [digits_go hdigits, Nat.ofDigitChars_toDigits (by decide) (by decide)]
  have hlist : (toString n).toList = Nat.toDigits 10 n := Nat.toList_repr
  cases hcons : Nat.toDigits 10 n with
  | nil => exact absurd hcons Nat.toDigits_ne_nil
  | cons c rest =>
      rw [hcons] at hdigits hread hlist
      exact ⟨c, rest, hlist, hdigits c List.mem_cons_self, hread⟩

theorem natural?_toString (n : Nat) : natural? (toString n) = some n := by
  rcases exists_toList_toString n with ⟨c, rest, hlist, hdigit, hread⟩
  unfold natural?
  rw [hlist]
  split
  · next heq =>
      obtain rfl := (List.cons.inj heq).1
      simp at hdigit
  · exact hread

theorem integer?_toString (n : Nat) : integer? (toString n) = some (n : Int) := by
  rcases exists_toList_toString n with ⟨c, rest, hlist, hdigit, -⟩
  unfold integer?
  rw [hlist]
  split
  · next heq =>
      obtain rfl := (List.cons.inj heq).1
      simp at hdigit
  · rw [natural?_toString]
    rfl

theorem number32_toString {n : Nat} (h : n < 0x100000000) : number32 (toString n) = .ok n := by
  have hrange : (0 : Int) ≤ n ∧ (n : Int) < 0x100000000 := by omega
  unfold number32
  rw [integer?_toString]
  simp [hrange]

theorem number64_toString {n : Nat} (h : n < 0x10000000000000000) :
    number64 (toString n) = .ok n := by
  unfold number64
  rw [natural?_toString]
  simp [h]

theorem plain_toString (n : Nat) : Plain (toString n) := by
  rcases exists_toList_toString n with ⟨c, rest, hlist, hdigit, -⟩
  refine ⟨?_, ?_⟩
  · intro hempty
    simp [hempty] at hlist
  · rw [hlist]
    rintro heq
    obtain rfl := Option.some.inj heq
    simp at hdigit

/-! ## Options -/

/-- The name of an option, where it has one. -/
def Parameter.optionName (p : Parameter) : String := p.optionName?.getD ""

/-- The options that have a value. -/
def valuedOptions : List Parameter := [.config, .adminAddress, .priority]

variable {level : Level} {p : Parameter}

/-- The facts about the names of the options with a value. -/
theorem optionName_of_valued (valued : p ∈ valuedOptions) :
    p.optionName? = some p.optionName ∧ p.optionName.toList ≠ [] ∧
      '=' ∉ p.optionName.toList ∧ p.takesValue = true := by
  simp only [valuedOptions, List.mem_cons, List.not_mem_nil, or_false] at valued
  rcases valued with rfl | rfl | rfl <;> decide

/-- No two parameters have one name. -/
theorem eq_of_optionName?_eq {q : Parameter} (h : q.optionName? = p.optionName?)
    (named : p.optionName? ≠ none) : q = p := by
  revert h named
  cases p <;> cases q <;> decide

/-- An option is found by its name. -/
theorem find?_option {name : String} (offered : p ∈ level.options)
    (hname : p.optionName? = some name) :
    (level.options.find? fun q => q.optionName? = some name) = some p := by
  cases hfind : level.options.find? fun q => q.optionName? = some name with
  | none =>
      have hnone := List.find?_eq_none.1 hfind p offered
      simp [hname] at hnone
  | some q =>
      have hq : q.optionName? = some name := by simpa using List.find?_some hfind
      rw [eq_of_optionName?_eq (hq.trans hname.symm) (by simp [hname])]

theorem ne_equals_of_mem {cs : List Char} (h : '=' ∉ cs) :
    ∀ c ∈ cs, decide (c ≠ '=') = true := by
  intro c hc
  simpa using ne_of_mem_of_not_mem hc h

theorem splitOption_name {name : List Char} (h : '=' ∉ name) :
    Scan.splitOption name = (String.ofList name, none) := by
  have hname := ne_equals_of_mem h
  simp only [Scan.splitOption, List.takeWhile_eq_self_iff.2 hname,
    List.dropWhile_eq_nil_iff.2 hname]

theorem splitOption_attached {name value : List Char} (h : '=' ∉ name) :
    Scan.splitOption (name ++ '=' :: value) =
      (String.ofList name, some (String.ofList value)) := by
  have hname := ne_equals_of_mem h
  simp only [Scan.splitOption]
  rw [List.takeWhile_append_of_pos hname, List.dropWhile_append_of_pos hname]
  simp

/-! ## Scanning one word -/

namespace Scan

variable {s : Scan} {word : String}

theorem step_of_hyphens {cs : List Char} (h : s.onlyOperands = false)
    (hword : word.toList = '-' :: '-' :: cs) (nonempty : cs ≠ []) :
    s.step level word = s.option level (splitOption cs).1 (splitOption cs).2 := by
  unfold step
  rw [if_neg (by simp [h]), hword]
  split
  · next heq => simp [nonempty] at heq
  · next heq =>
      simp at heq
      rw [heq]
  · next heq => simp at heq
  · next hhyphen _ heq =>
      simp at heq
      exact absurd heq.1.symm hhyphen
  · next hhyphens _ _ => exact (hhyphens cs rfl).elim

theorem step_of_plain (h : s.onlyOperands = false) (plain : Plain word) :
    s.step level word =
      if s.awaiting then
        .ok { s with pending := s.pending.map fun (p, _) => (p, [word]), awaiting := false }
      else s.operand level word := by
  rcases plain.exists_toList with ⟨c, rest, hword, hc⟩
  unfold step
  rw [if_neg (by simp [h]), hword]
  split
  · next heq => simp [hc] at heq
  · next heq => simp [hc] at heq
  · next heq => simp [hc] at heq
  · next heq => simp [hc] at heq
  · rfl

/-- An option whose value is behind an equals sign. -/
theorem step_attached {value : String} (h : s.onlyOperands = false) (valued : p ∈ valuedOptions) :
    s.step level ("--" ++ p.optionName ++ "=" ++ value) =
      s.option level p.optionName (some value) := by
  rcases optionName_of_valued valued with ⟨-, -, hequals, -⟩
  have hword : ("--" ++ p.optionName ++ "=" ++ value).toList =
      '-' :: '-' :: (p.optionName.toList ++ '=' :: value.toList) := by
    simp
  rw [step_of_hyphens h hword (by simp), splitOption_attached hequals, String.ofList_toList,
    String.ofList_toList]

/-- An option whose value is to come. -/
theorem step_apart (h : s.onlyOperands = false) (valued : p ∈ valuedOptions) :
    s.step level ("--" ++ p.optionName) = s.option level p.optionName none := by
  rcases optionName_of_valued valued with ⟨-, hnonempty, hequals, -⟩
  have hword : ("--" ++ p.optionName).toList = '-' :: '-' :: p.optionName.toList := by simp
  rw [step_of_hyphens h hword hnonempty, splitOption_name hequals, String.ofList_toList]

theorem step_dryRun (h : s.onlyOperands = false) :
    s.step level "--dry-run" = s.option level "dry-run" none := by
  have hword : "--dry-run".toList = '-' :: '-' :: "dry-run".toList := by decide
  rw [step_of_hyphens h hword (by decide), splitOption_name (by decide), String.ofList_toList]

end Scan

end CommandLine

end ReplicaCluster
