import Mathlib.Data.List.Basic

/-!
# Lib.Forest

Ordered forests: a node with what is below it and what comes next to it.

* `siblings` — the top level, `preorder` — all nodes in document order.
* `flatten` — the top level, where the contents of a group stand in its place; it is in document
  order (`flatten_sublist`).
* `walk_eq_foldlM` — what goes through a forest and into its groups is a fold over `flatten`.
-/

namespace Lib

universe u v

inductive Forest (α : Type*) where
  | null
  | node (label : α) (children next : Forest α)
deriving DecidableEq, Repr

namespace Forest

variable {α : Type*}

/-- The nodes of the top level, each with what is below it. -/
def siblings : Forest α → List (α × Forest α)
  | null => []
  | node label children next => (label, children) :: next.siblings

def preorder : Forest α → List (α × Forest α)
  | null => []
  | node label children next => (label, children) :: (children.preorder ++ next.preorder)

/-- The nodes that are no groups and only in groups. -/
def flatten (group : α → Bool) : Forest α → List (α × Forest α)
  | null => []
  | node label children next =>
    if group label then children.flatten group ++ next.flatten group
    else (label, children) :: next.flatten group

theorem flatten_sublist (group : α → Bool) (t : Forest α) :
    (t.flatten group).Sublist t.preorder := by
  induction t with
  | null => exact List.Sublist.refl _
  | node label children next ihc ihn =>
    rw [flatten, preorder]
    split
    · exact (ihc.append ihn).cons _
    · exact (ihn.trans (List.sublist_append_right _ _)).cons_cons _

/-- Without groups there is only the top level. -/
theorem flatten_siblings {group : α → Bool} {t : Forest α}
    (h : ∀ x ∈ t.siblings, group x.1 = false) : t.flatten group = t.siblings := by
  induction t with
  | null => rfl
  | node label children next ihc ihn =>
    obtain ⟨hlabel, hnext⟩ := List.forall_mem_cons.mp h
    rw [flatten, siblings, ihn hnext, if_neg (Bool.eq_false_iff.mp hlabel)]

/-- A walk that goes into groups and visits the other nodes. -/
theorem walk_eq_foldlM {σ : Type u} {m : Type u → Type v} [Monad m] [LawfulMonad m]
    {group : α → Bool} {visit : σ → α × Forest α → m σ} {walk : Forest α → σ → m σ}
    (hnull : ∀ s, walk null s = pure s)
    (hgroup : ∀ label children next s, group label = true →
      walk (node label children next) s = walk children s >>= walk next)
    (hvisit : ∀ label children next s, group label = false →
      walk (node label children next) s = visit s (label, children) >>= walk next)
    (t : Forest α) (s : σ) : walk t s = (t.flatten group).foldlM visit s := by
  induction t generalizing s with
  | null => exact hnull s
  | node label children next ihc ihn =>
    rw [flatten]
    cases hlabel : group label with
    | true =>
      rw [hgroup label children next s hlabel, if_pos rfl, List.foldlM_append, ihc]
      exact bind_congr fun s' => ihn s'
    | false =>
      rw [hvisit label children next s hlabel, if_neg Bool.false_ne_true, List.foldlM_cons]
      exact bind_congr fun s' => ihn s'

end Forest

end Lib
