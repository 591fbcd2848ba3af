import Scriptlet.Value.Conversion
import Scriptlet.Value.Equality
/-!
Comparison operators. Any two values can be tested for equality; only two integers, two texts or
two booleans have an order. Texts are ordered by the code points of their characters.
-/
namespace Scriptlet

namespace Value

/-- The order of two values; a pair that has none is reported at `p`. -/
def order (a b : Value) (p : Position) : Except Fault Ordering :=
  match a, b with
  | integer m, integer n => .ok (compare m.toInt n.toInt)
  | string s, string t => .ok (compare s t)
  | bool x, bool y => .ok (compare x y)
  | integer _, _ | string _, _ | bool _, _ => .error (b.mismatch (.only a.type) p)
  | _, _ => .error (a.mismatch .orderable p)

end Value

namespace Store

/-- The result of a comparison; values without an order are reported at `p`. -/
def compare (s : Store) (op : ComparisonOperator) (a b : Value) (p : Position) :
    Except Fault Bool :=
  match op with
  | .equal => .ok (s.equal a b)
  | .notEqual => .ok !(s.equal a b)
  | .less => (a.order b p).map (·.isLT)
  | .lessEqual => (a.order b p).map (·.isLE)
  | .greater => (a.order b p).map (·.isGT)
  | .greaterEqual => (a.order b p).map (·.isGE)

end Store
end Scriptlet
