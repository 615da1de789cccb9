import Flattener.CommandLine.Request

/-!
# Arguments in the order of their settings

Arguments that spell settings one behind the other, in whatever order and however
often, are read as those settings (`readArguments_of_spelled`). The request that they make
changes what the settings say, shows no notice and no log, and has their operands
(`Spelled.asks`).
-/

namespace Flattener

/-- The options that take no value, and what they set. -/
def flagSettings : List (String × Setting) :=
  [("--ast", .outline), ("--color", .color true), ("--no-color", .color false)]

/-- The options whose value is in the next argument, and what they set. -/
def valueSettings : List (String × (String → Setting)) :=
  [("-o", .output), ("--output", .output), ("--separator", .separator)]

/-- The arguments spell the settings: an output file, whether there are colors, a
    separator, an outline, and operands. -/
inductive Spelled : List String → List Setting → Prop
  | nil : Spelled [] []
  | flag {argument : String} {setting : Setting} {arguments : List String}
      {settings : List Setting} : (argument, setting) ∈ flagSettings → Spelled arguments settings →
    Spelled (argument :: arguments) (setting :: settings)
  | value {argument value : String} {setting : String → Setting} {arguments : List String}
      {settings : List Setting} : (argument, setting) ∈ valueSettings → Spelled arguments settings →
    Spelled (argument :: value :: arguments) (setting value :: settings)
  | operand {text : String} {arguments : List String} {settings : List Setting} :
    text.toList.head? ≠ some '-' → Spelled arguments settings →
    Spelled (text :: arguments) (.operand text :: settings)

/-- The operand that a setting is, if it is one. -/
def Setting.operand? : Setting → Option String
  | .operand text => some text
  | _ => none

section

variable {argument value text : String} {setting : Setting} {arguments : List String}
  {settings : List Setting}

theorem readArguments_cons (harguments : argument ≠ "--")
    (hreading : readArgument argument = .ok (.complete [setting]))
    (h : readArguments arguments = .ok settings) :
    readArguments (argument :: arguments) = .ok (setting :: settings) := by
  rw [readArguments.eq_def]
  dsimp only
  rw [if_neg harguments, hreading]
  dsimp only
  rw [h]
  rfl

theorem readArguments_flag (hflag : (argument, setting) ∈ flagSettings)
    (h : readArguments arguments = .ok settings) :
    readArguments (argument :: arguments) = .ok (setting :: settings) := by
  simp only [flagSettings, List.mem_cons, Prod.mk.injEq, List.not_mem_nil, or_false] at hflag
  rcases hflag with ⟨rfl, rfl⟩ | ⟨rfl, rfl⟩ | ⟨rfl, rfl⟩ <;>
    exact readArguments_cons (by decide) (by cbv) h

theorem readArguments_value {setting : String → Setting}
    (hoption : (argument, setting) ∈ valueSettings) (h : readArguments arguments = .ok settings) :
    readArguments (argument :: value :: arguments) = .ok (setting value :: settings) := by
  obtain ⟨hname, name, hreading⟩ : argument ≠ "--" ∧
      ∃ name, readArgument argument = .ok (.awaiting [] name setting) := by
    simp only [valueSettings, List.mem_cons, Prod.mk.injEq, List.not_mem_nil, or_false] at hoption
    rcases hoption with ⟨rfl, rfl⟩ | ⟨rfl, rfl⟩ | ⟨rfl, rfl⟩ <;>
      exact ⟨by decide, _, by cbv⟩
  rw [readArguments.eq_def]
  dsimp only
  rw [if_neg hname, hreading]
  dsimp only
  rw [h]
  rfl

/-- What does not begin with a dash is an operand. -/
theorem readArguments_operand (htext : text.toList.head? ≠ some '-')
    (h : readArguments arguments = .ok settings) :
    readArguments (text :: arguments) = .ok (.operand text :: settings) := by
  refine readArguments_cons (fun heq => htext (heq ▸ rfl)) ?_ h
  rw [readArgument]
  split
  · next heq => exact absurd (by rw [heq]; rfl) htext
  · next heq => exact absurd (by rw [heq]; rfl) htext
  · rfl

/-- Arguments are read as the settings that they spell. -/
theorem readArguments_of_spelled (h : Spelled arguments settings) :
    readArguments arguments = .ok settings := by
  induction h with
  | nil => rw [readArguments]
  | flag hflag _ ih => exact readArguments_flag hflag ih
  | value hoption _ ih => exact readArguments_value hoption ih
  | operand htext _ ih => exact readArguments_operand htext ih

end

/-- The arguments ask for one input file, and for neither a notice nor a log. -/
structure AsksFor (arguments : List String) (input : String) (r : Request) : Prop where
  request : Request.ofArguments arguments = .ok r
  notice : r.notice = none
  quiet : r.verbose = false
  operands : r.operands = [input]

namespace Spelled

variable {arguments : List String} {settings : List Setting}

/-- One setting after the other adds its operand to a request, and asks for no more. -/
theorem applied (h : Spelled arguments settings) (r : Request) :
    (settings.foldl Request.apply r).notice = r.notice ∧
      (settings.foldl Request.apply r).verbose = r.verbose ∧
      (settings.foldl Request.apply r).operands = r.operands ++ settings.filterMap (·.operand?) := by
  induction h generalizing r with
  | nil => exact ⟨rfl, rfl, (List.append_nil _).symm⟩
  | flag hflag _ ih =>
    simp only [flagSettings, List.mem_cons, Prod.mk.injEq, List.not_mem_nil, or_false] at hflag
    rcases hflag with ⟨-, rfl⟩ | ⟨-, rfl⟩ | ⟨-, rfl⟩ <;> exact ih (r.apply _)
  | value hoption _ ih =>
    simp only [valueSettings, List.mem_cons, Prod.mk.injEq, List.not_mem_nil, or_false] at hoption
    rcases hoption with ⟨-, rfl⟩ | ⟨-, rfl⟩ | ⟨-, rfl⟩ <;> exact ih (r.apply _)
  | @operand text _ _ _ _ ih =>
    obtain ⟨hnotice, hverbose, hoperands⟩ := ih (r.apply (.operand text))
    refine ⟨hnotice, hverbose, hoperands.trans ?_⟩
    exact List.append_assoc r.operands [text] _

/-- With one operand, the arguments ask for one file. -/
theorem asks (h : Spelled arguments settings) {input : String}
    (hinput : settings.filterMap (·.operand?) = [input]) :
    AsksFor arguments input (settings.foldl Request.apply .standard) := by
  obtain ⟨hnotice, hverbose, hoperands⟩ := h.applied .standard
  refine ⟨?_, hnotice, hverbose, hoperands.trans hinput⟩
  rw [Request.ofArguments, readArguments_of_spelled h]
  rfl

end Spelled

end Flattener
