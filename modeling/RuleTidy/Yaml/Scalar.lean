import RuleTidy.Number.Basic

/-! The values of leaves. -/

namespace RuleTidy.Yaml

inductive Scalar where
  | null
  | bool (value : Bool)
  | number (value : Number)
  | string (text : String)
  deriving DecidableEq

namespace Scalar

protected def beq : Scalar → Scalar → Bool
  | .null, .null => true
  | .bool a, .bool b => a == b
  | .number a, .number b => a == b
  | .string a, .string b => a == b
  | _, _ => false

instance : BEq Scalar := ⟨Scalar.beq⟩

def display : Scalar → String
  | .null => "null"
  | .bool true => "true"
  | .bool false => "false"
  | .number n => n.render
  | .string text => text

end Scalar

end RuleTidy.Yaml
