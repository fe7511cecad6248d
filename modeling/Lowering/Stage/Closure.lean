import Lowering.Hook
import Lowering.Scope.Capture
import Lowering.Tree.Mapper

/-!
# Closures

A function literal gets its captures as leading parameters, and is bundled with their values where
it stands. So no function refers to a variable of another one. A scope lists the names that a
function literal can capture: inside a function these are its parameters, its captures and what its
blocks declare.
-/

namespace Lowering.Closure

variable {ι : Type}

/-- Put the captures before the parameters of a function and bundle it with their values. -/
def bundle (captured : List String) : Expr ι → Expr ι
  | .functionLit i n params body =>
      if captured.isEmpty then .functionLit i n params body
      else
        Hook.createClosure.call i
          (.functionLit i n (captured.map (⟨i, ·⟩) ++ params) body :: captured.map (.variable i ·))
  | e => e

/-- The rule for function literals. Captures are those of the literal before its body is changed. -/
def closure (available : List String) : Expr ι → Expr ι → Expr ι
  | .functionLit _ _ params body, rebuilt => bundle (captures available params body) rebuilt
  | _, rebuilt => rebuilt

/-- How the names that can be captured change on the way down. -/
def scoping : Scoping (List String) ι where
  ofFunction available params body := captures available params body ++ Param.names params
  ofBlock available b := b.declared ++ available

/-- Bundle all function literals with their captures. -/
def mapper : Mapper (List String) ι where
  toScoping := scoping
  onExpr := closure

/-- Run the stage. -/
def run (p : Program ι) : Program ι :=
  ⟨mapper.block [] p.statements⟩

/-- Each function literal that captures something contributes its captures. -/
def captureCollector : Collector (List String) ι (List String) where
  toScoping := scoping
  onExpr
    | available, .functionLit _ _ params body =>
        let captured := captures available params body
        if captured.isEmpty then [] else [captured]
    | _, _ => []

/-- The captures found by the stage, outer functions before inner ones. -/
def captured (p : Program ι) : List (List String) :=
  captureCollector.block [] p.statements

end Lowering.Closure
