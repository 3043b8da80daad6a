import WireCodec.Number.FloatText
import WireCodec.Wire.Error

/-!
# Floats that have an encoding
-/

namespace WireCodec

/-- A float32 lies strictly within the bound of single precision. -/
def checkSingle (typeName : String) (x : Double) : Except WireError Unit :=
  if x.withinSingle then .ok () else .error (.range typeName x.plain)

/-- A float64 is a number. -/
def checkDouble (typeName : String) (x : Double) : Except WireError Unit :=
  if x.isNaN then .error (.range typeName x.plain) else .ok ()

end WireCodec
