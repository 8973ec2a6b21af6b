import Mathlib.Data.List.Infix
import ConceptMarkup.CommandLine.Invocation

/-! Where the word for a check is put. A command line may begin with options, one of which takes the
argument behind it as its value, whatever that looks like. The word goes before the first argument
after them, unless that is a command word itself, and nothing else is changed. -/
namespace ConceptMarkup.CommandLine

/-- What may stand before the first operand: an option, or the option for the configuration with
its value, which may look like an option or be a command word. -/
inductive Lead where
  | option (arg : String) (dash : ['-'] <+: arg.toList) (ne_config : arg ≠ "--config")
  | config (value : String)

def Lead.args : Lead → List String
  | option arg _ _ => [arg]
  | config value => ["--config", value]

def Lead.joined (leads : List Lead) : List String := leads.flatMap Lead.args

/-- What a command line holds behind its leads. -/
inductive Remainder : List String → Prop where
  | nothing : Remainder []
  /-- The option for the configuration, without a value. -/
  | config : Remainder ["--config"]
  | operand {arg : String} (args : List String) :
      ¬ ['-'] <+: arg.toList → Remainder (arg :: args)

private theorem isOption_iff {arg : String} : isOption arg ↔ ['-'] <+: arg.toList := by
  rw [isOption, decide_eq_true_eq, List.head?_eq_some_iff, List.cons_prefix_iff]
  simp

private theorem isCommandWord_iff {arg : String} :
    isCommandWord arg ↔ arg ∈ ["check", "test", "help"] := by
  simp only [isCommandWord, Bool.or_eq_true, decide_eq_true_eq, or_assoc]
  simp [Command.word, helpWord]

private theorem insertCheck_option {arg : String} (h : isOption arg) (hc : arg ≠ "--config")
    (args : List String) : insertCheck (arg :: args) = arg :: insertCheck args := by
  cases args with
  | nil => simp [insertCheck, h]
  | cons value args => rw [insertCheck, if_neg hc, if_pos h]

private theorem insertCheck_config (value : String) (args : List String) :
    insertCheck ("--config" :: value :: args) = "--config" :: value :: insertCheck args :=
  if_pos rfl

private theorem insertCheck_operand {arg : String} (h : ¬ isOption arg) (args : List String) :
    insertCheck (arg :: args) =
      if isCommandWord arg then arg :: args else Command.check.word :: arg :: args := by
  cases args with
  | nil => simp [insertCheck, h]
  | cons value args =>
    have hc : arg ≠ "--config" := by
      rintro rfl
      exact h (by decide)
    rw [insertCheck, if_neg hc, if_neg h]

private theorem insertCheck_joined (leads : List Lead) (args : List String) :
    insertCheck (Lead.joined leads ++ args) = Lead.joined leads ++ insertCheck args := by
  induction leads with
  | nil => rfl
  | cons lead leads ih =>
    cases lead with
    | option arg dash ne_config =>
      exact (insertCheck_option (isOption_iff.mpr dash) ne_config _).trans (congrArg _ ih)
    | config value =>
      exact (insertCheck_config value _).trans (congrArg (["--config", value] ++ ·) ih)

private theorem exists_joined (args : List String) :
    ∃ leads rest, args = Lead.joined leads ++ rest ∧ Remainder rest := by
  match args with
  | [] => exact ⟨[], [], rfl, .nothing⟩
  | arg :: args =>
    by_cases dash : ['-'] <+: arg.toList
    · by_cases hc : arg = "--config"
      · subst hc
        cases args with
        | nil => exact ⟨[], ["--config"], rfl, .config⟩
        | cons value args =>
          obtain ⟨leads, rest, rfl, hr⟩ := exists_joined args
          exact ⟨.config value :: leads, rest, rfl, hr⟩
      · obtain ⟨leads, rest, rfl, hr⟩ := exists_joined args
        exact ⟨.option arg dash hc :: leads, rest, rfl, hr⟩
    · exact ⟨[], arg :: args, rfl, .operand args dash⟩

private theorem Remainder.insertCheck {rest : List String} (h : Remainder rest) :
    (insertCheck rest = rest ∨ insertCheck rest = Command.check.word :: rest) ∧
      insertCheck (insertCheck rest) = insertCheck rest := by
  cases h with
  | nothing => exact ⟨.inl rfl, rfl⟩
  | config => exact ⟨.inl rfl, rfl⟩
  | @operand arg args hn =>
    rw [insertCheck_operand (mt isOption_iff.mp hn)]
    split
    · next hw =>
      refine ⟨.inl rfl, ?_⟩
      rw [insertCheck_operand (mt isOption_iff.mp hn), if_pos hw]
    · exact ⟨.inr rfl, insertCheck_operand (by decide) _⟩

/-- The word for a check is put in once at most, behind the name of the program, and a command line
that has it is left as it is. It is put before the first argument behind the leads, unless that is
one of the three command words; a command line without such an argument is left as it is, too. -/
theorem check_before_first_operand :
    (∀ args : List String,
      (injectDefaultCommand args = args ∨ ∃ program before after,
        args = program :: before ++ after ∧
          injectDefaultCommand args = program :: before ++ "check" :: after) ∧
      injectDefaultCommand (injectDefaultCommand args) = injectDefaultCommand args) ∧
    ∀ (program : String) (leads : List Lead),
      let given := program :: Lead.joined leads
      (∀ (operand : String) (args : List String), ¬ ['-'] <+: operand.toList →
        injectDefaultCommand (given ++ operand :: args) =
          if operand ∈ ["check", "test", "help"] then given ++ operand :: args
          else given ++ "check" :: operand :: args) ∧
      injectDefaultCommand given = given ∧
      injectDefaultCommand (given ++ ["--config"]) = given ++ ["--config"] := by
  refine ⟨fun args => ?_, fun program leads => ⟨fun operand args hn => ?_, ?_, ?_⟩⟩
  · cases args with
    | nil => exact ⟨.inl rfl, rfl⟩
    | cons program args =>
      obtain ⟨leads, rest, rfl, hr⟩ := exists_joined args
      obtain ⟨hi, ht⟩ := hr.insertCheck
      simp only [injectDefaultCommand, insertCheck_joined, ht, and_true]
      refine hi.imp (fun h => by rw [h]) fun h => ?_
      exact ⟨program, Lead.joined leads, rest, rfl, by rw [h]; rfl⟩
  · simp only [List.cons_append, injectDefaultCommand, insertCheck_joined,
      insertCheck_operand (mt isOption_iff.mp hn), isCommandWord_iff]
    split
    · rfl
    · rfl
  · have h := insertCheck_joined leads []
    rw [List.append_nil] at h
    rw [injectDefaultCommand, h, insertCheck, List.append_nil]
  · rw [List.cons_append, injectDefaultCommand, insertCheck_joined]
    rfl

/-- A value that is a command word and another that looks like an option are not the operand. -/
theorem check_before_first_operand_behind_values :
    let leads : List Lead :=
      [.config "test", .option "-v" (by decide) (by decide), .config "--no-color"]
    ¬ ['-'] <+: "plan".toList ∧
      injectDefaultCommand ("nlm" :: Lead.joined leads ++ ["plan", "--json"]) =
        ["nlm", "--config", "test", "-v", "--config", "--no-color", "check", "plan", "--json"] := by
  intro leads
  have hn : ¬ ['-'] <+: "plan".toList := by decide
  exact ⟨hn, ((check_before_first_operand.2 "nlm" leads).1 "plan" ["--json"] hn).trans rfl⟩

end ConceptMarkup.CommandLine
