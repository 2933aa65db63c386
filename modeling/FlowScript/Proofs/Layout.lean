import FlowScript.Compilation
import FlowScript.Proofs.Pass

/-!
# The text of a program

A compiled program is the block of its document, laid out one level below the function that runs the
flow. What is said of the block is so said of the program.
-/
namespace FlowScript.Program

open Pass

theorem liftFault_eq_ok {α : Type} {x : Except Fault α} {a : α} : liftFault x = .ok a ↔ x = .ok a := by
  cases x <;> simp [liftFault]

/-- A text holds the function that runs a flow, with the lines of the given body one level deeper. -/
def LaysOut (ctx : Context) (body : Block) (text : String) : Prop :=
  ∃ margin before after, Margin.ofIndent ctx.settings.indent = .ok margin ∧
    text = before ++ (Header.run ctx.agent.name).code ++ "\n" ++
      String.intercalate "\n" (body.lines margin 1) ++ after

theorem written_eq_ok {indent : Value} {block : Block} {lines : List String}
    (h : (filled block).written indent 1 = .ok lines) :
    ∃ margin, Margin.ofIndent indent = .ok margin ∧ lines = (filled block).lines margin 1 := by
  have hne : (filled block).isEmpty = false := by
    unfold filled
    cases block <;> simp
  simp only [Block.written, hne, Bool.false_eq_true, if_false] at h
  obtain ⟨margin, hm, h⟩ := bind_eq_ok.mp h
  exact ⟨margin, hm, (Except.ok.inj h).symm⟩

theorem render_eq_ok {script : Script} {template : Template} {code : String}
    (h : script.render template = .ok code) :
    ∃ before after, code = before ++ (Header.run script.agent.name).code ++ "\n" ++
      String.intercalate "\n" script.body ++ after := by
  have hcore (kind preamble : String) : ∃ before, script.core kind preamble =
      before ++ (Header.run script.agent.name).code ++ "\n" ++
        String.intercalate "\n" script.body ++ "\n" := ⟨_, rfl⟩
  cases template with
  | module =>
    obtain ⟨preamble, -, h⟩ := bind_eq_ok.mp h
    obtain ⟨before, hbefore⟩ := hcore "flow" preamble
    exact ⟨before, "\n", by rw [← hbefore]; exact (Except.ok.inj h).symm⟩
  | playwright =>
    obtain ⟨factory, -, h⟩ := bind_eq_ok.mp h
    obtain ⟨preamble, -, h⟩ := bind_eq_ok.mp h
    obtain ⟨width, -, h⟩ := bind_eq_ok.mp h
    obtain ⟨height, -, h⟩ := bind_eq_ok.mp h
    obtain ⟨before, hbefore⟩ := hcore "script" preamble
    refine ⟨before, "\n" ++ script.launcher factory width height, ?_⟩
    rw [← String.append_assoc, ← hbefore]
    exact (Except.ok.inj h).symm

theorem compileDocument_eq_ok {ctx : Context} {template : Template} {source : String} {document : Value}
    {result : Result} (h : compileDocument ctx template source document = .ok result) :
    ∃ fields block state, document.fields? = some fields ∧
      (documentBlock ctx fields).Runs {} block state ∧ LaysOut ctx (filled block) result.code := by
  unfold compileDocument at h
  obtain ⟨fields, hfields, h⟩ := bind_eq_ok.mp h
  obtain ⟨⟨block, state⟩, hblock, h⟩ := bind_eq_ok.mp h
  obtain ⟨lines, hlines, h⟩ := bind_eq_ok.mp h
  obtain ⟨platform, -, h⟩ := bind_eq_ok.mp h
  obtain ⟨code, hcode, h⟩ := bind_eq_ok.mp h
  obtain rfl := Except.ok.inj h
  obtain ⟨margin, hmargin, rfl⟩ := written_eq_ok (liftFault_eq_ok.mp hlines)
  obtain ⟨before, after, hcode⟩ := render_eq_ok hcode
  have hdocument : document.fields? = some fields := by
    unfold compilable at hfields
    cases hd : document.fields? with
    | none => simp [hd, liftRefusal] at hfields
    | some es =>
      simp only [hd] at hfields
      split_ifs at hfields
      · simp [liftRefusal] at hfields
      · simp [liftRefusal] at hfields
      · simpa [liftRefusal] using hfields
  exact ⟨fields, block, state, hdocument, liftFault_eq_ok.mp hblock, margin, before, after, hmargin, hcode⟩

end FlowScript.Program

namespace FlowScript

open Program Program.Pass

theorem compile_eq_ok {tree : File.Tree} {settings : Settings} {request : Compilation.Request}
    {compilation : Compilation} (h : compile tree settings request = .ok compilation) :
    ∃ loaded fields block state, request.source.load tree settings = .ok loaded ∧
      loaded.document.fields? = some fields ∧
      (documentBlock (request.context settings) fields).run {} = .ok (block, state) ∧
      LaysOut (request.context settings) (filled block) compilation.code := by
  unfold compile at h
  obtain ⟨template, -, h⟩ := bind_eq_ok.mp h
  obtain ⟨loaded, hloaded, h⟩ := bind_eq_ok.mp h
  obtain ⟨result, hresult, h⟩ := bind_eq_ok.mp h
  obtain ⟨after, -, h⟩ := bind_eq_ok.mp h
  obtain rfl := Except.ok.inj h
  have hl : request.source.load tree settings = .ok loaded := by
    revert hloaded
    cases request.source.load tree settings with
    | ok l => exact fun h => congrArg _ (Except.ok.inj h)
    | error e => cases e <;> simp [Compilation.ofLoad]
  have hr {x : Except Program.Failure Result} (hx : Compilation.ofProgram x = .ok result) :
      x = .ok result := by
    cases x with
    | ok r => exact congrArg _ (Except.ok.inj hx)
    | error e => cases e <;> simp [Compilation.ofProgram] at hx
  obtain ⟨fields, block, state, hfields, hrun, hcode⟩ := compileDocument_eq_ok (hr hresult)
  exact ⟨loaded, fields, block, state, hl, hfields, hrun, hcode⟩

/-- A document with one task. -/
def oneTask (flow : Flow) : Fields :=
  [(.text "tasks", .list [.map [(.text "name", .text "t"), (.text "flow", .list flow)]])]

end FlowScript
