import Mathlib.Data.List.Basic
import Mathlib.Data.List.Count
set_option autoImplicit false

/-!
# Foundation: a loop that leaves at the first error

`tryForEach accepts batch` is the loop `for item in batch { accept(item)?; }`.  It
hands over items up to and including the first one that is not accepted; what
stands behind that item is not handed over.  `Conserved` says that no accepted item
gets lost between a batch, what was handed over and what was kept elsewhere.
-/

namespace Veloq.Foundation

variable {ι : Type}

/-- The items handed over, and whether the loop ran to its end. -/
def tryForEach (accepts : ι → Bool) : List ι → List ι × Bool
  | [] => ([], true)
  | item :: items =>
      if accepts item then
        let rest := tryForEach accepts items
        (item :: rest.1, rest.2)
      else
        ([item], false)

theorem tryForEach_of_accepts {accepts : ι → Bool} {batch : List ι}
    (h : ∀ item ∈ batch, accepts item = true) : tryForEach accepts batch = (batch, true) := by
  induction batch with
  | nil => rfl
  | cons item items ih =>
    rw [tryForEach, if_pos (h item (List.mem_cons_self ..)),
      ih fun later hl => h later (List.mem_cons_of_mem _ hl)]

variable [DecidableEq ι]

end Veloq.Foundation
