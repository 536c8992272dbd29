import Windowing.Cell.Basic
import Windowing.FloatingPoint.Layout

/-!
The text of a cell inside a message: its type's name around its value. Strings stand in quotes as
they are, binaries as decimal bytes, floating-point numbers without a fraction if they are whole.
-/
namespace Windowing

def Value.text : Value → String
  | .boolean b => "Boolean(" ++ (if b then "true" else "false") ++ ")"
  | .integer k v _ => k.name ++ "(" ++ toString v ++ ")"
  | .float32 code => "Float32(" ++ FloatLayout.plain.render .single code.toNat ++ ")"
  | .float64 code => "Float64(" ++ FloatLayout.plain.render .double code.toNat ++ ")"
  | .utf8 text => "Utf8(\"" ++ text ++ "\")"
  | .binary bytes => "Binary(\"" ++ ",".intercalate (bytes.map fun b => toString b.toNat) ++ "\")"

def Cell.text : Cell → String
  | .null .null => "NULL"
  | .null t => t.name ++ "(NULL)"
  | .value v => v.text

end Windowing
