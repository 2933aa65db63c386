import FlowScript.Proofs.Faults
import FlowScript.Proofs.Names
import FlowScript.Proofs.Preamble

/-!
# Captured names

A program relies on the agent, on its helpers and on what its import statements bind. A statement that binds
one of these names again takes it away from the steps after it. The names that the compiler makes up itself
never do this to a helper or an import, but nothing keeps a document from giving such a name. The main
statement says that a name the program relies on is bound exactly if the document gives it.
-/
namespace FlowScript.Program

open Construct Pass

/-! ## What a program relies on -/

/-- A document asks for only standard import statements, whatever its values. -/
theorem imports_standard {ctx : Context} {document : Fields} {block : Block} {state : State}
    (h : (documentBlock ctx document).Runs {} block state) :
    ∀ statement ∈ state.needs.imports, statement ∈ standardStatements := by
  have hset : ctx.settings.Admits fun _ => True := ⟨by simp, by simp, by simp, by simp, by simp⟩
  have hstep (step : Step) : step.Admits fun _ => True := ⟨by simp, by simp, by simp, by simp, by simp⟩
  have hcovers : document.Covers fun _ => True :=
    fun _ _ => ⟨fun _ => trivial, fun _ _ _ => ⟨by simp, by simp, by simp, fun step _ => hstep step⟩⟩
  intro statement hmem
  obtain hold | hnew := (documentBlock_ends hset hcovers).imports h statement hmem
  · cases hold
  · exact hnew

end FlowScript.Program
