import GraphTex.Proofs.Attribution
import GraphTex.Proofs.Faithful
import GraphTex.Proofs.Rendering

/-!
# What a compile mentions

Reading a source looks nothing up, and rendering a tree looks up the commands of its nodes and no
others. So a compile comes out the same with two registries that agree on the commands of the trees
(`Compiler.compile_congr`). A registry that was made by registering commands gives for a name the
command that was registered under it last (`Registry.get?_registerAll`). Both together say what a
session may do in front of a compile without a change to it (`compile_of_mentioned`).
-/

namespace GraphTex

/-! ### Registries that agree -/

namespace Registry

variable {r r' : Registry}

theorem renderArgs_congr {command : Text} {args : List Argument}
    (hargs : ∀ arg ∈ args, ∀ position,
      r.renderArg command position arg = r'.renderArg command position arg)
    (slots : List Slot) (rest : Option Position) :
    r.renderArgs command slots rest args = r'.renderArgs command slots rest args := by
  fun_induction Slot.places slots rest args with
  | case1 => rw [renderArgs, renderArgs]
  | case2 => rw [renderArgs, renderArgs]
  | case3 position first args ih =>
    have hlater := ih fun arg harg => hargs arg (List.mem_cons_of_mem first harg)
    rw [renderArgs, renderArgs, hargs first List.mem_cons_self position, hlater]
  | case4 slot slots rest first args ih =>
    have hlater := ih fun arg harg => hargs arg (List.mem_cons_of_mem first harg)
    rw [renderArgs, renderArgs, hargs first List.mem_cons_self slot.position, hlater]

/-- **Rendering a tree looks up the commands of its nodes only.** -/
theorem render_congr {n : Node} (h : ∀ m ∈ n.nodes, r.get? m.command = r'.get? m.command) :
    r.render n = r'.render n := by
  induction n using Node.induction with
  | node n ih =>
    have hargs : ∀ arg ∈ n.args, ∀ position,
        r.renderArg n.command position arg = r'.renderArg n.command position arg := by
      intro arg harg position
      cases arg with
      | literal text span => rw [renderArg_literal, renderArg_literal]
      | expr child =>
        have hchild := ih child harg fun m hm => h m (Node.mem_nodes.2 (.inr ⟨child, harg, hm⟩))
        rw [renderArg_expr, renderArg_expr, hchild]
    have hroot := h n (Node.mem_nodes.2 (.inl rfl))
    cases hget : r.get? n.command with
    | none => rw [render_unknown hget, render_unknown (hroot.symm.trans hget)]
    | some c =>
      rw [render_known hget, render_known (hroot.symm.trans hget), renderArgs_congr hargs]

end Registry

namespace Compiler

variable (c : Compiler)

/-- The names of the commands in the trees of a source. -/
def mentioned (source : Text) : List Text :=
  ((c.parse source).value.flatMap Node.nodes).map Node.command

theorem mem_mentioned {source : Text} {n m : Node} (hn : n ∈ (c.parse source).value)
    (hm : m ∈ n.nodes) : m.command ∈ c.mentioned source :=
  List.mem_map_of_mem (List.mem_flatMap.2 ⟨n, hn, hm⟩)

/-- What is mentioned stands in the source. -/
theorem infix_of_mem_mentioned {source name : Text} (h : name ∈ c.mentioned source) :
    name <:+: source := by
  obtain ⟨m, hm, rfl⟩ := List.mem_map.1 h
  obtain ⟨n, hn, hmem⟩ := List.mem_flatMap.1 hm
  rw [value_parse] at hn
  obtain ⟨g, hg, hread⟩ := List.mem_filterMap.1 hn
  have hfaithful := Node.faithful_of_mem_nodes (Group.enclosedAt_of_mem_find hg) hread m hmem
  obtain ⟨before, after, hsource, -⟩ := Text.slice?_eq_some_iff.1 hfaithful.command.1
  exact ⟨before, after, by rw [hsource, List.append_assoc]⟩

/-- A group is compiled the same with a registry that renders its tree the same. -/
theorem compileGroup_congr {registry : Registry} {g : Group}
    (h : ∀ n, (c.readGroup g).value = some n → registry.render n = c.registry.render n) :
    (compileGroup { c with registry } g).value = (c.compileGroup g).value ∧
      (compileGroup { c with registry } g).reports = (c.compileGroup g).reports := by
  -- reading a group looks nothing up
  have hread : readGroup { c with registry } g = c.readGroup g := rfl
  rw [value_compileGroup, value_compileGroup, reports_compileGroup, reports_compileGroup, hread]
  cases htree : (c.readGroup g).value with
  | none => exact ⟨rfl, rfl⟩
  | some n => simp [h n htree]

/-- **A compile with a registry that agrees on what is mentioned is the same.** -/
theorem compile_congr {registry : Registry} {source : Source}
    (h : ∀ name ∈ c.mentioned source.content, registry.get? name = c.registry.get? name) :
    compile { c with registry } source = c.compile source := by
  have hgroup : ∀ g ∈ (Group.find source.content).value,
      (compileGroup { c with registry } g).value = (c.compileGroup g).value ∧
        (compileGroup { c with registry } g).reports = (c.compileGroup g).reports := by
    refine fun g hg => c.compileGroup_congr fun n hread => ?_
    have hn : n ∈ (c.parse source.content).value := by
      rw [value_parse]
      exact List.mem_filterMap.2 ⟨g, hg, hread⟩
    exact Registry.render_congr fun m hm => h m.command (c.mem_mentioned hn hm)
  have hvalue : (fragments { c with registry } source.content).value =
      (c.fragments source.content).value := by
    rw [value_fragments, value_fragments]
    exact List.map_congr_left fun g hg => (hgroup g hg).1
  have hreports : (fragments { c with registry } source.content).reports =
      (c.fragments source.content).reports := by
    rw [reports_fragments, reports_fragments, groupReports, groupReports]
    exact congrArg _ (List.flatMap_congr fun g hg => (hgroup g hg).2)
  simp only [compile, compileInto, hvalue, hreports]

end Compiler

/-! ### Registering -/

/-- The command that is registered last under a name, if one is. -/
def Command.latest? (commands : List Command) (name : Text) : Option Command :=
  commands.reverse.find? (·.name == name)

theorem Command.latest?_concat (commands : List Command) (c : Command) (name : Text) :
    latest? (commands ++ [c]) name = if c.name = name then some c else latest? commands name := by
  unfold latest?
  rw [List.reverse_concat, List.find?_cons]
  by_cases h : c.name = name
  · rw [if_pos h, beq_iff_eq.2 h]
  · rw [if_neg h, beq_eq_false_iff_ne.2 h]

theorem Command.latest?_eq_none {commands : List Command} {name : Text}
    (h : ∀ c ∈ commands, c.name ≠ name) : latest? commands name = none := by
  refine List.find?_eq_none.2 fun c hc => ?_
  simpa using h c (List.mem_reverse.1 hc)

/-- **Of the commands that are registered under a name, the last one is found.** -/
theorem Registry.get?_registerAll (r : Registry) (commands : List Command) (name : Text) :
    (r.registerAll commands).get? name = (Command.latest? commands name).or (r.get? name) := by
  induction commands using List.reverseRecOn with
  | nil => rfl
  | append_singleton commands c ih =>
    have hconcat : r.registerAll (commands ++ [c]) = (r.registerAll commands).register c :=
      List.foldl_concat _ _ _ _
    rw [hconcat, get?_register, Command.latest?_concat, ih]
    split_ifs <;> rfl

namespace Session

/-- The step takes neither another nesting limit nor another registry. -/
def Step.keepsSettings : Step → Bool
  | .limit _ | .registry _ => false
  | _ => true

/-- The commands that a step registers, in order. -/
def Step.registered : Step → List Command
  | .families chosen => chosen.flatMap Family.commands
  | .register name arity usage rule =>
    (Registry.standard.get? rule).toList.map fun command =>
      { name, arity, usage, rule := command.rule }
  | _ => []

/-- What such a step does to the settings of a session is to register its commands. -/
theorem toCompiler_step (s : Session) {step : Step} (h : step.keepsSettings = true) :
    (s.step step).2.toCompiler =
      { s.toCompiler with registry := s.registry.registerAll step.registered } := by
  cases step with
  | limit maxDepth => cases h
  | registry registry => cases h
  | register name arity usage rule =>
    rw [step, withRegistry, Step.registered]
    cases Registry.standard.get? rule <;> rfl
  | _ => rfl

/-- **Steps that keep the settings add up to one registration of all their commands.** -/
theorem toCompiler_after (s : Session) {steps : List Step}
    (h : ∀ step ∈ steps, step.keepsSettings = true) :
    (s.after steps).toCompiler =
      { s.toCompiler with
        registry := s.registry.registerAll (steps.flatMap Step.registered) } := by
  induction steps using List.reverseRecOn with
  | nil => rfl
  | append_singleton steps step ih =>
    have hbefore := ih fun t ht => h t (List.mem_append_left _ ht)
    have hstep := (s.after steps).toCompiler_step (h step (by simp))
    rw [after_concat, hstep, hbefore, List.flatMap_append, List.flatMap_singleton,
      Registry.registerAll, Registry.registerAll, Registry.registerAll, List.foldl_append]

/-- What a compile answers and leaves in the sink is what it gives with a new sink. -/
theorem step_compile (s : Session) (source : Source) :
    (s.step (.compile source)).1 = .output (s.toCompiler.compile source).output ∧
      (s.step (.compile source)).2.sink.diagnostics =
        (s.toCompiler.compile source).diagnostics :=
  ⟨congrArg Answer.output (s.compileInto_output s.sink source),
    s.compileInto_diagnostics s.sink source⟩

/-- Two runs register the same under what is mentioned if the last commands are the same. -/
theorem compile_after_congr (s : Session) {source : Source} {steps steps' : List Step}
    (h : ∀ step ∈ steps, step.keepsSettings = true)
    (h' : ∀ step ∈ steps', step.keepsSettings = true)
    (hlatest : ∀ name ∈ s.mentioned source.content,
      Command.latest? (steps.flatMap Step.registered) name =
        Command.latest? (steps'.flatMap Step.registered) name) :
    (s.after steps).toCompiler.compile source = (s.after steps').toCompiler.compile source := by
  rw [s.toCompiler_after h, s.toCompiler_after h']
  refine Compiler.compile_congr
    { s.toCompiler with registry := s.registry.registerAll (steps'.flatMap Step.registered) } ?_
  intro name hname
  rw [Registry.get?_registerAll, Registry.get?_registerAll, hlatest name hname]

/-- A compile in two sessions does the same if compiling alone does. -/
theorem step_compile_congr {s s' : Session} {source : Source}
    (h : s.toCompiler.compile source = s'.toCompiler.compile source) :
    (s.step (.compile source)).1 = (s'.step (.compile source)).1 ∧
      (s.step (.compile source)).2.sink.diagnostics =
        (s'.step (.compile source)).2.sink.diagnostics := by
  obtain ⟨hanswer, hdiagnostics⟩ := s.step_compile source
  obtain ⟨hanswer', hdiagnostics'⟩ := s'.step_compile source
  rw [hanswer, hanswer', hdiagnostics, hdiagnostics', h]
  exact ⟨rfl, rfl⟩

/-- **A compile depends only on the commands it mentions.** Two registries that give the same
command for every name in the trees of a source, or both none, give the same output and the same
diagnostics. What a session does in front of a compile, with the same nesting limit, makes no
difference to it if nothing is registered under a name that is mentioned, as for all names that do
not stand in the source. Otherwise only the last registration of such a name makes one. -/
theorem compile_of_mentioned (s : Session) (source : Source) :
    (∀ registry : Registry,
      (∀ name ∈ s.mentioned source.content, registry.get? name = s.registry.get? name) →
        Compiler.compile { s.toCompiler with registry } source = s.toCompiler.compile source) ∧
      (∀ steps : List Step, (∀ step ∈ steps, step.keepsSettings = true) →
        (∀ c ∈ steps.flatMap Step.registered, c.name ∉ s.mentioned source.content) →
          ((s.after steps).step (.compile source)).1 = (s.step (.compile source)).1 ∧
            ((s.after steps).step (.compile source)).2.sink.diagnostics =
              (s.step (.compile source)).2.sink.diagnostics) ∧
      (∀ steps steps' : List Step, (∀ step ∈ steps, step.keepsSettings = true) →
        (∀ step ∈ steps', step.keepsSettings = true) →
        (∀ name ∈ s.mentioned source.content,
          Command.latest? (steps.flatMap Step.registered) name =
            Command.latest? (steps'.flatMap Step.registered) name) →
          ((s.after steps).step (.compile source)).1 =
              ((s.after steps').step (.compile source)).1 ∧
            ((s.after steps).step (.compile source)).2.sink.diagnostics =
              ((s.after steps').step (.compile source)).2.sink.diagnostics) ∧
      ∀ name ∈ s.mentioned source.content, name <:+: source.content := by
  refine ⟨fun registry => s.toCompiler.compile_congr, fun steps h hnames => ?_,
    fun steps steps' h h' hlatest => step_compile_congr (s.compile_after_congr h h' hlatest),
    fun name => s.infix_of_mem_mentioned⟩
  -- a run without steps has the same last commands under what is mentioned, namely none
  have hnone : ∀ name ∈ s.mentioned source.content,
      Command.latest? (steps.flatMap Step.registered) name = none := by
    intro name hname
    refine Command.latest?_eq_none fun c hc heq => hnames c hc ?_
    rwa [heq]
  have hsame : (s.after steps).toCompiler.compile source = (s.after []).toCompiler.compile source :=
    s.compile_after_congr h (by simp) hnone
  exact step_compile_congr hsame

/-- A family and a new name are registered for a source with an unknown command, and a name that is
mentioned is registered twice. -/
theorem compile_of_mentioned_twice :
    Compiler.compile { registry := Registry.empty.registerAll Family.constants.commands }
        ⟨"input", "(tau) (nope 1)".toList⟩ =
      Compiler.compile {} ⟨"input", "(tau) (nope 1)".toList⟩ ∧
    ((after {} [.families [.trig], .register "none".toList (.exactly 0) "" "pi".toList]).step
        (.compile ⟨"input", "(tau) (nope 1)".toList⟩)).1 =
      (step {} (.compile ⟨"input", "(tau) (nope 1)".toList⟩)).1 ∧
    ((after {} [.register "nope".toList (.exactly 1) "" "neg".toList, .take,
          .register "nope".toList (.exactly 2) "" "add".toList]).step
        (.compile ⟨"input", "(tau) (nope 1)".toList⟩)).1 =
      ((after {} [.register "nope".toList (.exactly 2) "" "add".toList]).step
        (.compile ⟨"input", "(tau) (nope 1)".toList⟩)).1 := by
  obtain ⟨hregistry, hnames, hlatest, -⟩ :=
    compile_of_mentioned {} ⟨"input", "(tau) (nope 1)".toList⟩
  refine ⟨hregistry _ ?_, (hnames _ ?_ ?_).1, (hlatest _ _ ?_ ?_ ?_).1⟩ <;> decide +kernel

end Session

end GraphTex
