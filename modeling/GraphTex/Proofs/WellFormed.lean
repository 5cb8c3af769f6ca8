import GraphTex.Proofs.Compiling
import GraphTex.Proofs.Reading
import GraphTex.Proofs.Rendering

/-!
# Well-formed expressions

The static semantics of the commands. A node is well formed if its command is registered, takes
that many arguments, and each argument meets what the command demands of it at its place
(`WellFormed`). What a command demands is told by its name alone (`demands`):

* some commands demand a value of every argument, among them sums, lists and statistics;
* `poly` and `action` demand values that are no numbers;
* the constants demand nothing, and `latex` only that nested expressions are well formed;
* commands that bind a variable or a function demand a name at one place;
* all others fill a fixed template and demand values as many as they must have.

A source has an output exactly if it is parsed without report and all its trees are well formed
(`compile_iff_wellFormed`).
-/

namespace GraphTex

/-! ### What commands demand of their arguments -/

/-- What a command demands of one argument. -/
inductive Demand where
  /-- A numeral, a name or a well-formed expression. -/
  | value
  /-- A value that is neither a numeral nor one of the constants `pi` and `tau`. -/
  | nonNumber
  /-- A name. -/
  | name
  /-- A well-formed list of parameters. -/
  | params
  /-- Any literal, or a well-formed expression. -/
  | verbatim
  /-- Nothing. -/
  | ignored
  deriving DecidableEq

/-- What a command demands of its first arguments, in order, and of each further one. -/
structure Demands where
  first : List Demand
  further : Demand
  deriving DecidableEq

/-- The demand on the argument with an index. -/
def Demands.on (d : Demands) (index : Nat) : Demand := d.first[index]?.getD d.further

/-- The command has one of the given names. -/
def isAmong (command : Text) (names : List String) : Bool :=
  names.any fun name => name.toList == command

/-- The demands of a command that must have at least `minimum` arguments. -/
def demands (command : Text) (minimum : Nat) : Demands :=
  if isAmong command ["add", "sub", "mul", "list", "params", "len", "mean", "median", "mad", "min",
      "max"] then ⟨[], .value⟩
  else if isAmong command ["poly", "action"] then ⟨[], .nonNumber⟩
  else if isAmong command ["alpha", "beta", "theta", "pi", "tau", "phi", "inf", "ninf", "ellipsis",
      "empty"] then ⟨[], .ignored⟩
  else if isAmong command ["latex"] then ⟨[], .verbatim⟩
  else if isAmong command ["let", "set"] then ⟨[.name, .value], .ignored⟩
  else if isAmong command ["func"] then ⟨[.name, .params, .value], .ignored⟩
  else if isAmong command ["subst"] then ⟨[.name], .value⟩
  else if isAmong command ["deriv"] then ⟨[.name, .value], .ignored⟩
  else if isAmong command ["int", "sum", "prod"] then
    ⟨[.name, .value, .value, .value], .ignored⟩
  else if isAmong command ["listcomp"] then ⟨[.value, .name, .value], .ignored⟩
  -- the fixed templates
  else ⟨List.replicate minimum .value, .ignored⟩

/-- Digits, points, minus signs and the letter `e`, at least one of them. -/
def IsNumeral (t : Text) : Prop :=
  t ≠ [] ∧ ∀ c ∈ t, c.isDigit = true ∨ c = '.' ∨ c = 'e' ∨ c = '-'

/-- A letter or a low line, then letters, digits and low lines. Letters are those of ASCII. -/
def IsName (t : Text) : Prop :=
  ∃ first rest, t = first :: rest ∧ (first.isAlpha = true ∨ first = '_') ∧
    ∀ c ∈ rest, c.isAlpha = true ∨ c.isDigit = true ∨ c = '_'

/-- A numeral or one of the constants `pi` and `tau`. -/
def IsNumber : Argument → Prop
  | .literal text _ => IsNumeral text
  | .expr n => n.command = "pi".toList ∨ n.command = "tau".toList

mutual

/-- The command is registered, takes that many arguments, and each of them meets its demand. -/
inductive WellFormed : Node → Prop
  | intro {n : Node} {c : Command} (hregistered : Registry.standard.get? n.command = some c)
      (harity : c.arity.accepts n.args.length = true)
      (hargs : ∀ i arg, n.args[i]? = some arg →
        Meets ((demands n.command c.arity.minimum).on i) arg) : WellFormed n

/-- An argument is what is demanded of it. -/
inductive Meets : Demand → Argument → Prop
  | numeral {text : Text} {span : Span} (h : IsNumeral text) : Meets .value (.literal text span)
  | variable {text : Text} {span : Span} (h : IsName text) : Meets .value (.literal text span)
  | expr {n : Node} (h : WellFormed n) : Meets .value (.expr n)
  | nonNumber {arg : Argument} (h : Meets .value arg) (hnumber : ¬ IsNumber arg) :
      Meets .nonNumber arg
  | name {text : Text} {span : Span} (h : IsName text) : Meets .name (.literal text span)
  | params {n : Node} (hcommand : n.command = "params".toList) (h : WellFormed n) :
      Meets .params (.expr n)
  | text {text : Text} {span : Span} : Meets .verbatim (.literal text span)
  | nested {n : Node} (h : WellFormed n) : Meets .verbatim (.expr n)
  | ignored {arg : Argument} : Meets .ignored arg

end

/-! ### Literals -/

theorem not_isDigit_of_isAlpha {c : Char} (h : c.isAlpha = true) : c.isDigit = false := by
  have hletter : ('A'.val ≤ c.val ∧ c.val ≤ 'Z'.val) ∨ 'a'.val ≤ c.val ∧ c.val ≤ 'z'.val := by
    rcases Bool.or_eq_true_iff.1 h with h | h
    · exact .inl (of_decide_eq_true h)
    · obtain ⟨hlow, hhigh⟩ := Bool.and_eq_true_iff.1 h
      exact .inr ⟨of_decide_eq_true hlow, of_decide_eq_true hhigh⟩
  rw [Char.isDigit, Bool.and_eq_false_iff, decide_eq_false_iff_not, decide_eq_false_iff_not]
  grind

theorem isNumeral_iff (t : Text) : Literal.isNumeral t = true ↔ IsNumeral t := by
  simp [Literal.isNumeral, IsNumeral, Literal.isNumeralChar, or_assoc]

theorem isNumber_iff (arg : Argument) : arg.isNumber = true ↔ IsNumber arg := by
  cases arg with
  | literal text span => exact isNumeral_iff text
  | expr n => simp [Argument.isNumber, IsNumber]

/-- The first character of a name. -/
theorem isNameChar_and_not_isDigit (c : Char) :
    c.isDigit = false ∧ Literal.isNameChar c = true ↔ c.isAlpha = true ∨ c = '_' := by
  constructor
  · rintro ⟨hdigit, hname⟩
    simpa [Literal.isNameChar, Char.isAlphanum, hdigit] using hname
  · rintro (h | rfl)
    · exact ⟨not_isDigit_of_isAlpha h, by simp [Literal.isNameChar, Char.isAlphanum, h]⟩
    · exact ⟨by decide, by decide⟩

theorem reports_renderName (text : Text) (span : Span) :
    (Position.renderName text span).reports = [] ↔ IsName text := by
  cases text with
  | nil => simp [Position.renderName, Literal.formatName, IsName]
  | cons c rest =>
    have hvalid : (c.isDigit || !(c :: rest).all Literal.isNameChar) = false ↔
        (c.isDigit = false ∧ Literal.isNameChar c = true) ∧
          ∀ d ∈ rest, Literal.isNameChar d = true := by
      simp [and_assoc]
    have hformat : (Position.renderName (c :: rest) span).reports = [] ↔
        (c.isDigit || !(c :: rest).all Literal.isNameChar) = false := by
      cases hbad : c.isDigit || !(c :: rest).all Literal.isNameChar with
      | true =>
        rw [Position.renderName, Literal.formatName, hbad]
        simp
      | false =>
        rw [Position.renderName, Literal.formatName, hbad]
        cases hone : rest.isEmpty <;> simp
    rw [hformat, hvalid, isNameChar_and_not_isDigit]
    simp [IsName, Literal.isNameChar, Char.isAlphanum, or_assoc]

/-! ### Meeting a demand -/

section Meets

variable {text : Text} {span : Span} {n : Node} {arg : Argument}

theorem meets_value_literal : Meets .value (.literal text span) ↔ IsNumeral text ∨ IsName text := by
  constructor
  · rintro (h | h)
    · exact .inl h
    · exact .inr h
  · rintro (h | h)
    · exact .numeral h
    · exact .variable h

theorem meets_value_expr : Meets .value (.expr n) ↔ WellFormed n :=
  ⟨fun | .expr h => h, .expr⟩

theorem meets_name_literal : Meets .name (.literal text span) ↔ IsName text :=
  ⟨fun | .name h => h, .name⟩

theorem not_meets_name_expr : ¬ Meets .name (.expr n) := nofun

theorem meets_verbatim_expr : Meets .verbatim (.expr n) ↔ WellFormed n :=
  ⟨fun | .nested h => h, .nested⟩

theorem meets_nonNumber : Meets .nonNumber arg ↔ ¬ IsNumber arg ∧ Meets .value arg :=
  ⟨fun | .nonNumber h hnumber => ⟨hnumber, h⟩, fun ⟨hnumber, h⟩ => .nonNumber h hnumber⟩

theorem meets_params :
    Meets .params arg ↔ arg.isCallOf "params".toList = true ∧ Meets .value arg := by
  constructor
  · intro h
    cases h with
    | params hcommand h => exact ⟨by simp [Argument.isCallOf, hcommand], .expr h⟩
  · rintro ⟨hcall, h⟩
    cases arg with
    | literal text span => simp [Argument.isCallOf] at hcall
    | expr n => exact .params (by simpa [Argument.isCallOf] using hcall) (meets_value_expr.1 h)

end Meets

theorem wellFormed_iff {n : Node} {c : Command} (h : Registry.standard.get? n.command = some c) :
    WellFormed n ↔ c.arity.accepts n.args.length = true ∧
      ∀ i arg, n.args[i]? = some arg →
        Meets ((demands n.command c.arity.minimum).on i) arg := by
  constructor
  · rintro ⟨hregistered, harity, hargs⟩
    rw [h] at hregistered
    obtain rfl := Option.some.inj hregistered
    exact ⟨harity, hargs⟩
  · rintro ⟨harity, hargs⟩
    exact .intro h harity hargs

/-! ### The demands of a rule -/

/-- The demand of a position, where the rule has no requirement. -/
def Position.demand : Position → Demand
  | .value => .value
  | .name _ => .name
  | .verbatim => .verbatim

/-- The demand of a rule on an argument that it looks at. -/
def Rule.demandAt (rule : Rule) (index : Nat) (position : Position) : Demand :=
  match position, rule.requirement with
  | .value, some .noNumbers => .nonNumber
  | .value, some (.paramsAt i) => if index = i then .params else .value
  | position, _ => position.demand

/-- The demands of a rule. -/
def Rule.demands (rule : Rule) : Demands :=
  ⟨rule.slots.mapIdx fun i slot => rule.demandAt i slot.position,
    rule.rest.elim .ignored (rule.demandAt rule.slots.length)⟩

/-- The requirement of a rule is about arguments that it renders as values. -/
def Rule.isCoherent (rule : Rule) : Bool :=
  match rule.requirement with
  | none => true
  | some .noNumbers => rule.slots == [] && rule.rest == some .value
  | some (.paramsAt i) => rule.slots[i]?.map Slot.position == some .value

/-- **The rules of the catalogue demand what their names promise.** -/
theorem standard_demands : ∀ c ∈ Registry.standard.commands,
    c.rule.isCoherent = true ∧ c.rule.demands = demands c.name c.arity.minimum := by
  decide +kernel

section Rules

variable {rule : Rule} {index : Nat} {arg : Argument}

theorem Rule.demands_on (hcoherent : rule.isCoherent = true) (index : Nat) :
    rule.demands.on index = (rule.positionAt index).elim .ignored (rule.demandAt index) := by
  rw [Demands.on, Rule.demands, List.getElem?_mapIdx, Rule.positionAt, Slot.positionAt]
  cases hslot : rule.slots[index]? with
  | some slot => rfl
  | none =>
    cases hrest : rule.rest with
    | none => rfl
    | some position =>
      -- behind the slots the index tells nothing: the parameters stand at one of them
      have hfar : ∀ i, rule.requirement = some (.paramsAt i) → i < rule.slots.length := by
        intro i hreq
        rw [Rule.isCoherent, hreq] at hcoherent
        by_contra hlt
        simp [List.getElem?_eq_none (Nat.le_of_not_lt hlt)] at hcoherent
      have hindex := List.getElem?_eq_none_iff.1 hslot
      cases position with
      | value =>
        cases hreq : rule.requirement with
        | none => simp [Rule.demandAt, hreq]
        | some req =>
          cases req with
          | noNumbers => simp [Rule.demandAt, hreq]
          | paramsAt i =>
            have := hfar i hreq
            simp [Rule.demandAt, hreq, show rule.slots.length ≠ i by omega,
              show index ≠ i by omega]
      | name role => simp [Rule.demandAt]
      | verbatim => simp [Rule.demandAt]

/-- An argument with a given index is as required. -/
def Requirement.Holds (index : Nat) (arg : Argument) : Requirement → Prop
  | .noNumbers => ¬ IsNumber arg
  | .paramsAt i => index = i → arg.isCallOf "params".toList = true

theorem Requirement.violations_eq_nil_iff (req : Requirement) (command : Text)
    (args : List Argument) :
    req.violations command args = [] ↔ ∀ i arg, args[i]? = some arg → req.Holds i arg := by
  cases req with
  | noNumbers =>
    simp only [Requirement.violations, List.map_eq_nil_iff, List.filter_eq_nil_iff,
      Requirement.Holds, List.mem_iff_getElem?, isNumber_iff]
    constructor
    · intro h i arg harg
      exact h arg ⟨i, harg⟩
    · rintro h arg ⟨i, harg⟩
      exact h i arg harg
  | paramsAt j =>
    simp only [Requirement.violations, List.map_eq_nil_iff, List.filter_eq_nil_iff,
      Requirement.Holds, Option.mem_toList]
    constructor
    · rintro h i arg harg rfl
      simpa using h arg harg
    · intro h arg harg
      simpa using h j arg harg rfl

theorem Rule.positionAt_of_noNumbers (hcoherent : rule.isCoherent = true)
    (hreq : rule.requirement = some .noNumbers) (index : Nat) :
    rule.positionAt index = some .value := by
  rw [Rule.isCoherent, hreq, Bool.and_eq_true, beq_iff_eq, beq_iff_eq] at hcoherent
  rw [Rule.positionAt, Slot.positionAt, hcoherent.1, hcoherent.2]
  rfl

theorem Rule.positionAt_of_paramsAt (hcoherent : rule.isCoherent = true)
    (hreq : rule.requirement = some (.paramsAt index)) : rule.positionAt index = some .value := by
  rw [Rule.isCoherent, hreq, beq_iff_eq] at hcoherent
  rw [Rule.positionAt, Slot.positionAt, hcoherent, Option.some_or]

/-- An argument meets the demand of a rule exactly if it is as required and, where the rule looks
at it, meets the demand of its position. -/
theorem Rule.meets_on_iff (hcoherent : rule.isCoherent = true) :
    Meets (rule.demands.on index) arg ↔
      (∀ req, rule.requirement = some req → req.Holds index arg) ∧
        ∀ position, rule.positionAt index = some position → Meets position.demand arg := by
  rw [Rule.demands_on hcoherent]
  cases hreq : rule.requirement with
  | none =>
    cases rule.positionAt index with
    | none => simpa using Meets.ignored
    | some position => cases position <;> simp [Rule.demandAt, hreq, Position.demand]
  | some req =>
    cases req with
    | noNumbers =>
      simp [Rule.positionAt_of_noNumbers hcoherent hreq, Rule.demandAt, hreq, Position.demand,
        Requirement.Holds, meets_nonNumber]
    | paramsAt i =>
      by_cases hi : index = i
      · subst hi
        simp [Rule.positionAt_of_paramsAt hcoherent hreq, Rule.demandAt, hreq, Position.demand,
          Requirement.Holds, meets_params]
      · cases rule.positionAt index with
        | none => simpa [Requirement.Holds, hi] using Meets.ignored
        | some position =>
          cases position <;> simp [Rule.demandAt, hreq, hi, Position.demand, Requirement.Holds]

end Rules

/-! ### Rendering finds what is not well formed -/

theorem reports_renderArg_iff (command : Text) (position : Position) (arg : Argument)
    (ih : ∀ child, arg = .expr child →
      ((Registry.standard.render child).reports = [] ↔ WellFormed child)) :
    (Registry.standard.renderArg command position arg).reports = [] ↔
      Meets position.demand arg := by
  cases arg with
  | literal text span =>
    rw [Registry.renderArg_literal]
    cases position with
    | value =>
      rw [Position.demand, meets_value_literal, ← isNumeral_iff, Position.renderLiteral]
      cases hnumeral : Literal.isNumeral text with
      | true => simp
      | false => simpa using reports_renderName text span
    | name role => exact (reports_renderName text span).trans meets_name_literal.symm
    | verbatim => simpa [Position.renderLiteral, Position.demand] using Meets.text
  | expr n =>
    rw [Registry.renderArg_expr, List.append_eq_nil_iff, ih n rfl]
    cases position with
    | value => simp [Position.misuse, Position.demand, meets_value_expr]
    | name role => simp [Position.misuse, Position.demand, not_meets_name_expr]
    | verbatim => simp [Position.misuse, Position.demand, meets_verbatim_expr]

/-- What a rule reports on arguments, its requirement included, tells whether they meet its
demands. -/
theorem Rule.reports_eq_nil_iff {rule : Rule} (hcoherent : rule.isCoherent = true) {command : Text}
    {args : List Argument}
    (hargs : ∀ position arg, arg ∈ args →
      ((Registry.standard.renderArg command position arg).reports = [] ↔
        Meets position.demand arg)) :
    (rule.requirement.elim [] (·.violations command args) ++
        (rule.places args).flatMap fun (position, arg) =>
          (Registry.standard.renderArg command position arg).reports) = [] ↔
      ∀ i arg, args[i]? = some arg → Meets (rule.demands.on i) arg := by
  have hrequired : rule.requirement.elim [] (·.violations command args) = [] ↔
      ∀ req, rule.requirement = some req → ∀ i arg, args[i]? = some arg → req.Holds i arg := by
    cases rule.requirement with
    | none => simp
    | some req => simpa using req.violations_eq_nil_iff command args
  rw [List.append_eq_nil_iff, hrequired, List.flatMap_eq_nil_iff]
  constructor
  · rintro ⟨hholds, hplaces⟩ i arg harg
    refine (Rule.meets_on_iff hcoherent).2 ⟨fun req hreq => hholds req hreq i arg harg, ?_⟩
    intro position hposition
    exact (hargs position arg (List.mem_of_getElem? harg)).1
      (hplaces (position, arg) (Slot.mem_places.2 ⟨i, harg, hposition⟩))
  · intro hmeets
    have hboth := fun i arg harg => (Rule.meets_on_iff hcoherent).1 (hmeets i arg harg)
    refine ⟨fun req hreq i arg harg => (hboth i arg harg).1 req hreq, ?_⟩
    rintro ⟨position, arg⟩ hplace
    obtain ⟨i, harg, hposition⟩ := Slot.mem_places.1 hplace
    exact (hargs position arg (List.mem_of_getElem? harg)).2
      ((hboth i arg harg).2 position hposition)

theorem Command.arityReports_eq_nil_iff (c : Command) (count : Nat) (span : Span) :
    c.arityReports count span = [] ↔ c.arity.accepts count = true := by
  rw [Command.arityReports]
  split_ifs with h <;> simp [h]

/-- **A tree without dropped arguments is rendered without report exactly if it is well formed.** -/
theorem reports_render_iff (n : Node) (hwhole : ∀ m ∈ n.nodes, m.droppedArgs = false) :
    (Registry.standard.render n).reports = [] ↔ WellFormed n := by
  induction n using Node.induction with
  | node n ih =>
    cases hget : Registry.standard.get? n.command with
    | none =>
      rw [Registry.render_unknown hget]
      refine ⟨fun h => absurd h (by simp), fun h => ?_⟩
      cases h with
      | intro hregistered => simp [hget] at hregistered
    | some c =>
      obtain ⟨hmem, hname⟩ := Registry.get?_eq_some hget
      obtain ⟨hcoherent, hdemands⟩ := standard_demands c hmem
      -- The arity is checked only if no argument was dropped.
      have hroot : n.droppedArgs = false := hwhole n (Node.mem_nodes.2 (.inl rfl))
      have hargs : ∀ position arg, arg ∈ n.args →
          ((Registry.standard.renderArg n.command position arg).reports = [] ↔
            Meets position.demand arg) := by
        intro position arg harg
        refine reports_renderArg_iff n.command position arg fun child hchild => ?_
        subst hchild
        exact ih child harg fun m hm => hwhole m (Node.mem_nodes.2 (.inr ⟨child, harg, hm⟩))
      rw [Registry.reports_render_known hget, hroot, List.append_eq_nil_iff, if_neg (by simp),
        Command.arityReports_eq_nil_iff, Rule.reports_eq_nil_iff hcoherent hargs,
        wellFormed_iff hget, hdemands, hname]

/-! ### Compiling -/

/-- The trees of a source that is parsed without report lack no argument. -/
theorem droppedArgs_of_parse {c : Compiler} {source : Text} (h : (c.parse source).reports = []) :
    ∀ n ∈ (c.parse source).value, ∀ m ∈ n.nodes, m.droppedArgs = false := by
  intro n hn
  rw [c.reports_parse, List.append_eq_nil_iff, List.flatMap_eq_nil_iff] at h
  rw [c.value_parse] at hn
  obtain ⟨g, hg, hvalue⟩ := List.mem_filterMap.1 hn
  obtain ⟨node, hnode, hwhole⟩ := Node.read_whole c.maxDepth c.maxDepth _ _ (h.2 g hg)
  obtain rfl : node = n := Option.some.inj (hnode.symm.trans hvalue)
  exact hwhole

/-- **Compiling succeeds exactly on well-formed programs.** With the commands of the catalogue, a
source has an output if and only if it is parsed without report and all its trees are well
formed. -/
theorem compile_iff_wellFormed (limit : Nat) (source : Source) :
    (Compiler.compile { maxDepth := limit } source).output.isSome = true ↔
      (Compiler.parse { maxDepth := limit } source.content).reports = [] ∧
        ∀ n ∈ (Compiler.parse { maxDepth := limit } source.content).value, WellFormed n := by
  rw [Compiler.isSome_output_iff]
  refine and_congr_right fun hreports => forall₂_congr fun n hn => ?_
  exact reports_render_iff n (droppedArgs_of_parse hreports n hn)

/-- The definition of a function is well formed, a polygon with a number for a vertex is not. -/
theorem wellFormed_function_not_polygon :
    (∃ n ∈ (Compiler.parse { maxDepth := 2 } "(func f (params x) (add x 1))".toList).value,
      WellFormed n) ∧
      ∃ n ∈ (Compiler.parse { maxDepth := 2 } "(poly p (pi))".toList).value, ¬ WellFormed n := by
  have hfunction := compile_iff_wellFormed 2 ⟨"input", "(func f (params x) (add x 1))".toList⟩
  have hpolygon := compile_iff_wellFormed 2 ⟨"input", "(poly p (pi))".toList⟩
  constructor
  · obtain ⟨-, hall⟩ := hfunction.1 (by decide +kernel)
    obtain ⟨n, hn⟩ := List.exists_mem_of_length_pos (by decide +kernel :
      0 < (Compiler.parse { maxDepth := 2 } "(func f (params x) (add x 1))".toList).value.length)
    exact ⟨n, hn, hall n hn⟩
  · by_contra hnone
    have houtput := hpolygon.2 ⟨by decide +kernel, fun n hn => by
      by_contra hbad
      exact hnone ⟨n, hn, hbad⟩⟩
    exact absurd houtput (by decide +kernel)

end GraphTex
