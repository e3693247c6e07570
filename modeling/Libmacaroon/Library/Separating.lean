import Mathlib.Data.Multiset.AddSub
import Mathlib.Data.Set.Basic

/-! Sets of collections, put together without sharing: the parts of a collection in `sep A C` have no
name in common, and none twice. -/
namespace Separating
variable {β : Type*}

end Separating
