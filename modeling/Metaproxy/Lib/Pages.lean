import Mathlib.Data.List.Perm.Basic

/-!
# Lib.Pages

Pages of a list, whose positions are counted from 1, as they are shown one after the other.

* `Agree` — what two pages show at one position is the same.
* `Complete` — pages that show every position show every element once.
* `Page.Follows` — the pages that follow one order of the elements have both (`agree_of_follows`,
  `complete_of_follows`).
-/

namespace Lib

variable {α : Type*}

structure Page (α : Type*) where
  start : Nat
  items : List α

def Page.Shows (page : Page α) (p : Nat) (x : α) : Prop :=
  ∃ i, page.items[i]? = some x ∧ page.start + i = p

def Agree (pages : List (Page α)) : Prop :=
  ∀ a ∈ pages, ∀ b ∈ pages, ∀ p x y, a.Shows p x → b.Shows p y → x = y

/-- Whatever pages the elements are taken from. -/
def Complete (l : List α) (pages : List (Page α)) : Prop :=
  ∀ g : Nat → α, (∀ p, 1 ≤ p → p ≤ l.length → ∃ page ∈ pages, page.Shows p (g p)) →
    ((List.range' 1 l.length).map g).Perm l

def Page.Follows (order : List α) (page : Page α) : Prop :=
  ∀ p x, page.Shows p x → 1 ≤ p ∧ order[p - 1]? = some x

section

variable {order l : List α} {pages : List (Page α)}

theorem agree_of_follows (h : ∀ page ∈ pages, page.Follows order) : Agree pages := by
  intro a ha b hb p x y hx hy
  have hax := (h a ha p x hx).2
  have hby := (h b hb p y hy).2
  rw [hax] at hby
  exact Option.some.inj hby

theorem complete_of_follows (hperm : order.Perm l) (h : ∀ page ∈ pages, page.Follows order) :
    Complete l pages := by
  intro g hg
  have heq : (List.range' 1 l.length).map g = order := by
    refine List.ext_getElem? fun i => ?_
    by_cases hi : i < l.length
    · obtain ⟨page, hpage, hshows⟩ := hg (1 + i) (by omega) (by omega)
      obtain ⟨-, hget⟩ := h page hpage _ _ hshows
      rw [Nat.add_sub_cancel_left] at hget
      rw [hget, List.getElem?_map, List.getElem?_range' hi, Nat.one_mul]
      rfl
    · rw [List.getElem?_eq_none, List.getElem?_eq_none]
      · rw [hperm.length_eq]
        omega
      · rw [List.length_map, List.length_range']
        omega
  rw [heq]
  exact hperm

/-- A part of the order. -/
theorem follows_part {start : Nat} (hstart : 1 ≤ start) (n : Nat) :
    Page.Follows order ⟨start, (order.drop (start - 1)).take n⟩ := by
  rintro p x ⟨i, hi, rfl⟩
  have hlt : i < n := by
    by_contra hge
    rw [List.getElem?_eq_none] at hi
    · cases hi
    · rw [List.length_take]
      omega
  simp only at hi ⊢
  rw [List.getElem?_take_of_lt hlt, List.getElem?_drop] at hi
  have hindex : start + i - 1 = start - 1 + i := by omega
  rw [hindex]
  exact ⟨by omega, hi⟩

/-- A page that shows the same under another order. -/
theorem Page.Follows.of_eq {order' : List α} {page : Page α} (h : page.Follows order)
    (heq : ∀ p x, page.Shows p x → order'[p - 1]? = order[p - 1]?) : page.Follows order' := by
  intro p x hx
  obtain ⟨hpos, hget⟩ := h p x hx
  exact ⟨hpos, (heq p x hx).trans hget⟩

end

end Lib
