import Parlance.Engine.Basic

/-! Texts that show the definitions of an engine for inspection. -/

namespace Parlance

def recordText (name : String) (fields : List (String × String)) : String :=
  let shown := fields.map fun (key, value) => s!"{key}: {value}"
  name ++ " \x7b " ++ ", ".intercalate shown ++ " \x7d"

def Parameter.describe (objects : Objects) (p : Parameter) : String :=
  recordText "Parameter"
    [("name", Text.quoted p.name), ("type_name", Text.quoted p.typeName),
      ("optional", Value.boolText p.optional), ("default", p.default.inspect objects)]

def FunctionBody.describe : FunctionBody → String
  | .native _ => "native"
  | .script .. => "script"

def Function.describe (objects : Objects) (f : Function) : String :=
  recordText "Function"
    [("name", Text.quoted f.name),
      ("parameters", Value.bracketed (f.parameters.map (·.describe objects))),
      ("kind", Text.quoted f.body.describe)]

def TypeDef.describe (t : TypeDef) : String := recordText "TypeDef" [("name", Text.quoted t.name)]

def Engine.describe (e : Engine) : String :=
  let names := fun ns => Value.bracketed (ns.map Text.quoted)
  recordText "Registry"
    [("functions", names e.functions.names), ("types", names e.types.names),
      ("events", names e.events.names)]

end Parlance
