import Afly.Zigbee.Distinct

/-! # The round trip of an attribute

An attribute comes back exactly when it is a bitmap that is recovered. A bitmap
of two values of four bits gives back what lies in its low four bits only.
-/

namespace Afly

namespace AttrProfile

variable {ap : AttrProfile} {buf : List SChar} {dtostr : Double → CStr}
  {strtod : CStr → Option Double}

end AttrProfile

end Afly
