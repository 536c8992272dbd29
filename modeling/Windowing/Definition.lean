import Windowing.Function.Call
import Windowing.Order

/-!
Window definitions. One definition is shared by a set of calls: which rows form a partition, how
they are ordered in it, how many cells a row has before the results, and the calls themselves. A
missing order means that the dimension is absent: one partition, or one run of peers.
-/
namespace Windowing

structure Definition where
  width : Nat
  calls : List Call
  partitionBy : Option RowOrder := none
  orderBy : Option RowOrder := none
  deriving DecidableEq

end Windowing
