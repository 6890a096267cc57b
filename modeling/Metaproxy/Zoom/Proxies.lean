import Mathlib.Data.List.Induction
import Metaproxy.Lib.Arrival
import Metaproxy.Zoom.Databases

/-!
# Zoom.Proxies

The proxies that a search goes through. A step says where it is in the lists of the `proxy`
arguments, and each argument moves it on (`chooseProxy`).

* `chosen_subperm` — as long as the step has not come to 0 again, no place in the lists is
  chosen twice.
* `arrives_advance` — with one argument it always comes to 0.
-/

namespace Metaproxy
namespace Zoom

open Lib

section Choice

variable {α β : Type}

/-- One more list: the proxy chosen so far, and the step. -/
def chooseNext (p : Option α × Nat) (dstr : List α) : Option α × Nat :=
  ((nextProxy dstr p.2).1.or p.1, (nextProxy dstr p.2).2)

def chooseProxy (lists : List (List α)) (proxyStep : Nat) : Option α × Nat :=
  lists.foldl chooseNext (none, proxyStep)

/-- The step for the next attempt. -/
def advance (lists : List (List α)) (proxyStep : Nat) : Nat := (chooseProxy lists proxyStep).2

theorem chooseProxy_snoc (init : List (List α)) (last : List α) (proxyStep : Nat) :
    chooseProxy (init ++ [last]) proxyStep = chooseNext (chooseProxy init proxyStep) last := by
  simp [chooseProxy]

theorem nextProxy_map (g : α → β) (dstr : List α) (proxyStep : Nat) :
    nextProxy (dstr.map g) proxyStep =
      ((nextProxy dstr proxyStep).1.map g, (nextProxy dstr proxyStep).2) := by
  unfold nextProxy
  rw [List.getElem?_map, List.length_map]
  cases dstr[proxyStep]? with
  | none => rfl
  | some proxy => rfl

theorem chooseProxy_map (g : α → β) (lists : List (List α)) (proxyStep : Nat) :
    chooseProxy (lists.map (List.map g)) proxyStep =
      ((chooseProxy lists proxyStep).1.map g, advance lists proxyStep) := by
  induction lists using List.reverseRecOn with
  | nil => rfl
  | append_singleton init last ih =>
    rw [List.map_append, List.map_singleton, chooseProxy_snoc, ih]
    simp [chooseNext, advance, chooseProxy_snoc, nextProxy_map, Option.map_or]

theorem advance_map (g : α → β) (lists : List (List α)) :
    advance (lists.map (List.map g)) = advance lists := by
  funext proxyStep
  exact congrArg Prod.snd (chooseProxy_map g lists proxyStep)

/-- The step after a list is in it, or 0. -/
theorem nextProxy_cases (dstr : List α) (proxyStep : Nat) :
    nextProxy dstr proxyStep = (none, 0) ∨
      (∃ proxy, dstr[proxyStep]? = some proxy ∧ proxyStep + 1 = dstr.length ∧
        nextProxy dstr proxyStep = (some proxy, 0)) ∨
      ∃ proxy, dstr[proxyStep]? = some proxy ∧ proxyStep + 1 < dstr.length ∧
        nextProxy dstr proxyStep = (some proxy, proxyStep + 1) := by
  unfold nextProxy
  cases h : dstr[proxyStep]? with
  | none => exact .inl rfl
  | some proxy =>
    right
    obtain ⟨hlt, -⟩ := List.getElem?_eq_some_iff.mp h
    rcases Nat.eq_or_lt_of_le hlt with heq | hlt
    · exact .inl ⟨proxy, rfl, heq, by rw [if_pos heq]⟩
    · exact .inr ⟨proxy, rfl, hlt, by rw [if_neg (Nat.ne_of_lt hlt)]⟩

theorem mem_of_chooseProxy {lists : List (List α)} {proxyStep : Nat} {proxy : α}
    (h : proxy ∈ (chooseProxy lists proxyStep).1) : proxy ∈ lists.flatten := by
  induction lists using List.reverseRecOn with
  | nil => cases h
  | append_singleton init last ih =>
    rw [chooseProxy_snoc, chooseNext] at h
    rw [List.flatten_append, List.mem_append]
    rcases nextProxy_cases last (chooseProxy init proxyStep).2 with hn | hn | hn
    · rw [hn] at h
      exact .inl (ih (by simpa using h))
    all_goals
      obtain ⟨proxy', hget, -, hn⟩ := hn
      rw [hn] at h
      have : proxy' = proxy := by simpa using h
      subst this
      exact .inr (by simpa using List.mem_of_getElem? hget)

/-! ## Places -/

/-- The entries of the list with this number. -/
def entries (k : Nat) (l : List α) : List (α × Nat × Nat) := l.zipIdx.map fun x => (x.1, k, x.2)

/-- Each entry with the number of its list and its own. -/
def numbered (lists : List (List α)) : List (List (α × Nat × Nat)) :=
  lists.zipIdx.map fun l => entries l.2 l.1

theorem entries_map (k : Nat) (l : List α) : (entries k l).map Prod.fst = l := by
  rw [entries, List.map_map]
  exact List.zipIdx_map_fst 0 l

theorem numbered_map (lists : List (List α)) :
    (numbered lists).map (List.map Prod.fst) = lists := by
  rw [numbered, List.map_map]
  calc lists.zipIdx.map _ = lists.zipIdx.map Prod.fst :=
        List.map_congr_left fun l _ => entries_map l.2 l.1
    _ = lists := List.zipIdx_map_fst 0 lists

theorem advance_numbered (lists : List (List α)) : advance (numbered lists) = advance lists := by
  rw [← advance_map Prod.fst (numbered lists), numbered_map]

theorem numbered_snoc (init : List (List α)) (last : List α) :
    numbered (init ++ [last]) = numbered init ++ [entries init.length last] := by
  simp [numbered, List.zipIdx_append]

theorem place_lt {lists : List (List α)} {x : α × Nat × Nat}
    (h : x ∈ (numbered lists).flatten) : x.2.1 < lists.length := by
  obtain ⟨l', hl', hx⟩ := List.mem_flatten.mp h
  obtain ⟨l, hl, rfl⟩ := List.mem_map.mp hl'
  obtain ⟨y, hy, rfl⟩ := List.mem_map.mp hx
  have := List.snd_lt_of_mem_zipIdx hl
  simpa using this

/-- The place in the last list that a step which is not 0 comes from. -/
def placeBefore (lists : List (List α)) (proxyStep : Nat) : Nat × Nat :=
  (lists.length - 1, proxyStep - 1)

/-- The length of the last list. -/
def lastLength (lists : List (List α)) : Nat := (lists.getLast?.map List.length).getD 0

theorem lastLength_snoc (init : List (List α)) (last : List α) :
    lastLength (init ++ [last]) = last.length := by
  simp [lastLength]

theorem lastLength_le (lists : List (List α)) : lastLength lists ≤ lists.flatten.length := by
  induction lists using List.reverseRecOn with
  | nil => exact Nat.le_refl 0
  | append_singleton init last _ =>
    rw [lastLength_snoc, List.flatten_append, List.length_append]
    simp

theorem advance_lt (lists : List (List α)) (hlists : lists ≠ []) (proxyStep : Nat) :
    advance lists proxyStep < max 1 (lastLength lists) := by
  rcases List.eq_nil_or_concat lists with rfl | ⟨init, last, rfl⟩
  · exact absurd rfl hlists
  · rw [List.concat_eq_append, advance, chooseProxy_snoc, lastLength_snoc, chooseNext]
    rcases nextProxy_cases last (chooseProxy init proxyStep).2 with hn | hn | hn
    · rw [hn]
      exact Nat.lt_of_lt_of_le Nat.zero_lt_one (Nat.le_max_left _ _)
    · obtain ⟨_, _, _, hn⟩ := hn
      rw [hn]
      exact Nat.lt_of_lt_of_le Nat.zero_lt_one (Nat.le_max_left _ _)
    · obtain ⟨_, _, hlt, hn⟩ := hn
      rw [hn]
      exact Nat.lt_of_lt_of_le hlt (Nat.le_max_right _ _)

theorem place_of_getElem {k t : Nat} {l : List α} {x : α × Nat × Nat}
    (h : (entries k l)[t]? = some x) : x.2 = (k, t) := by
  rw [entries, List.getElem?_map, Option.map_eq_some_iff] at h
  obtain ⟨y, hy, rfl⟩ := h
  rw [List.getElem?_zipIdx, Option.map_eq_some_iff] at hy
  obtain ⟨a, -, rfl⟩ := hy
  simp

/-- There are no more steps to 0 than entries in the last list. -/
theorem exists_arrival {lists : List (List α)} {s : Nat} (h : Arrives (advance lists) 0 s)
    (hs : s < max 1 (lastLength lists)) :
    ∃ n, n < max 1 (lastLength lists) ∧ FirstArrival (advance lists) 0 s n := by
  by_cases hlists : lists = []
  · subst hlists
    have h0 : s = 0 := Nat.lt_one_iff.mp hs
    exact ⟨0, Nat.zero_lt_one, h0, fun m hm => absurd hm (Nat.not_lt_zero m)⟩
  · exact h.exists_lt hs (advance_lt lists hlists)

theorem advance_zero_lt (lists : List (List α)) : advance lists 0 < max 1 (lastLength lists) := by
  by_cases hlists : lists = []
  · subst hlists
    exact Nat.zero_lt_one
  · exact advance_lt lists hlists 0

/-- If the step for the next attempt is not 0, it is the one after this place; and it is the one
after this place only then. -/
structure ComesFrom (lists : List (List α)) (proxyStep : Nat) (x : α × Nat × Nat) : Prop where
  place : proxyStep ≠ 0 → proxyStep < lastLength lists ∧ x.2 = placeBefore lists proxyStep
  only : ∀ v, v ≠ 0 → v < lastLength lists → x.2 = placeBefore lists v → proxyStep = v

theorem comesFrom_of_choose {lists : List (List α)} {proxyStep : Nat} {x : α × Nat × Nat}
    (h : x ∈ (chooseProxy (numbered lists) proxyStep).1) :
    ComesFrom lists (advance lists proxyStep) x := by
  rcases List.eq_nil_or_concat lists with rfl | ⟨init, last, rfl⟩
  · cases h
  · rw [List.concat_eq_append] at *
    have hadv : advance (init ++ [last]) proxyStep =
        (nextProxy (entries init.length last) (chooseProxy (numbered init) proxyStep).2).2 := by
      rw [← advance_numbered, numbered_snoc, advance, chooseProxy_snoc]
      rfl
    have hlen : lastLength (init ++ [last]) = (entries init.length last).length := by
      rw [lastLength_snoc, ← List.length_map Prod.fst, entries_map]
    have hbefore : ∀ v, placeBefore (init ++ [last]) v = (init.length, v - 1) := by
      intro v
      simp [placeBefore]
    rw [numbered_snoc, chooseProxy_snoc, chooseNext] at h
    rw [hadv]
    rcases nextProxy_cases (entries init.length last) (chooseProxy (numbered init) proxyStep).2 with
      hn | ⟨y, hy, hend, hn⟩ | ⟨y, hy, hlt, hn⟩
    · have hx : x ∈ (numbered init).flatten := mem_of_chooseProxy (by simpa [hn] using h)
      have hplace := place_lt hx
      rw [hn]
      refine ⟨fun h0 => absurd rfl h0, ?_⟩
      intro v _ _ heq
      rw [heq, hbefore] at hplace
      exact absurd hplace (Nat.lt_irrefl _)
    · have hxy : x = y := by simpa [hn] using h.symm
      have hplace := place_of_getElem hy
      rw [hn, hxy]
      refine ⟨fun h0 => absurd rfl h0, ?_⟩
      intro v h0 hv heq
      rw [hplace, hbefore] at heq
      have := congrArg Prod.snd heq
      rw [hlen] at hv
      simp only at this
      omega
    · have hxy : x = y := by simpa [hn] using h.symm
      have hplace := place_of_getElem hy
      rw [hn, hxy]
      refine ⟨fun _ => ⟨hlen ▸ hlt, by rw [hplace, hbefore]; simp⟩, ?_⟩
      intro v h0 hv heq
      rw [hplace, hbefore] at heq
      have := congrArg Prod.snd heq
      simp only at this ⊢
      omega

/-- Entries that come from steps of which only the last may be 0 and no two are the same. -/
theorem subperm_of_steps {lists : List (List α)} {e : Nat → Option (α × Nat × Nat)}
    {v : Nat → Nat} {len : Nat} (hmem : ∀ i, ∀ x ∈ e i, x ∈ (numbered lists).flatten)
    (hfrom : ∀ i, ∀ x ∈ e i, ComesFrom lists (v i) x)
    (hv : ∀ i j, i < j → j < len → v i ≠ 0 ∧ v i ≠ v j) :
    ((List.range len).filterMap fun i => (e i).map Prod.fst).Subperm lists.flatten := by
  have hnodup : ((List.range len).filterMap e).Nodup := by
    have hlt : (List.range len).Pairwise fun i j => i < j ∧ j < len :=
      List.pairwise_lt_range.imp_of_mem fun _ hj hij => ⟨hij, List.mem_range.mp hj⟩
    refine hlt.filterMap e ?_
    rintro i j ⟨hij, hj⟩ x hx y hy rfl
    obtain ⟨h0, hne⟩ := hv i j hij hj
    obtain ⟨hvlt, hplace⟩ := (hfrom i x hx).place h0
    exact hne ((hfrom j x hy).only (v i) h0 hvlt hplace).symm
  have hsubset : (List.range len).filterMap e ⊆ (numbered lists).flatten := by
    intro x hx
    obtain ⟨i, -, hi⟩ := List.mem_filterMap.mp hx
    exact hmem i x hi
  obtain ⟨l, hperm, hsub⟩ := hnodup.subperm hsubset
  have hfst := hsub.map Prod.fst
  rw [List.map_flatten, numbered_map] at hfst
  rw [← List.map_filterMap]
  exact ⟨l.map Prod.fst, hperm.map Prod.fst, hfst⟩

theorem filterMap_range_succ (e : Nat → Option β) (len : Nat) :
    (List.range (len + 1)).filterMap e =
      (e 0).toList ++ (List.range len).filterMap fun i => e (i + 1) := by
  rw [List.range_succ_eq_map, List.filterMap_cons, List.filterMap_map]
  cases e 0 with
  | none => rfl
  | some x => rfl

theorem choose_fst (lists : List (List α)) (proxyStep : Nat) :
    (chooseProxy (numbered lists) proxyStep).1.map Prod.fst = (chooseProxy lists proxyStep).1 := by
  have h := chooseProxy_map Prod.fst (numbered lists) proxyStep
  rw [numbered_map] at h
  rw [h]

theorem steps_ne {lists : List (List α)} {s n i j : Nat}
    (h : FirstArrival (advance lists) 0 s n) (hij : i < j) (hj : j ≤ n) :
    (advance lists)^[i] s ≠ 0 ∧ (advance lists)^[i] s ≠ (advance lists)^[j] s :=
  ⟨h.first i (Nat.lt_of_lt_of_le hij hj), h.ne_of_lt hij hj⟩

/-- No place is chosen twice until the step is 0. -/
theorem chosen_subperm {lists : List (List α)} {s n len : Nat}
    (h : FirstArrival (advance lists) 0 (advance lists s) n) (hlen : len ≤ n + 1) :
    ((List.range len).filterMap fun i => (chooseProxy lists ((advance lists)^[i] s)).1).Subperm
      lists.flatten := by
  have hfrom : ∀ i, ∀ x ∈ (chooseProxy (numbered lists) ((advance lists)^[i] s)).1,
      ComesFrom lists ((advance lists)^[i] (advance lists s)) x := by
    intro i x hx
    rw [← Function.iterate_succ_apply, Function.iterate_succ_apply']
    exact comesFrom_of_choose hx
  have hsub := subperm_of_steps (fun i x hx => mem_of_chooseProxy hx) hfrom
    fun i j hij hj => steps_ne h hij (Nat.le_of_lt_succ (Nat.lt_of_lt_of_le hj hlen))
  simpa only [choose_fst] using hsub

/-- The first proxy may be that of a connection, which `p` is the place of. -/
theorem chosen_subperm_from {lists : List (List α)} {s n len : Nat} {p : Option (α × Nat × Nat)}
    (hp : ∀ x ∈ p, x ∈ (numbered lists).flatten ∧ ComesFrom lists s x)
    (h : FirstArrival (advance lists) 0 s n) (hlen : len ≤ n) :
    ((p.map Prod.fst).toList ++ (List.range len).filterMap fun i =>
      (chooseProxy lists ((advance lists)^[i] s)).1).Subperm lists.flatten := by
  let e : Nat → Option (α × Nat × Nat) := fun i =>
    i.casesOn p fun i => (chooseProxy (numbered lists) ((advance lists)^[i] s)).1
  have hmem : ∀ i, ∀ x ∈ e i, x ∈ (numbered lists).flatten := by
    intro i x hx
    cases i with
    | zero => exact (hp x hx).1
    | succ i => exact mem_of_chooseProxy hx
  have hfrom : ∀ i, ∀ x ∈ e i, ComesFrom lists ((advance lists)^[i] s) x := by
    intro i x hx
    cases i with
    | zero => exact (hp x hx).2
    | succ i =>
      rw [Function.iterate_succ_apply']
      exact comesFrom_of_choose hx
  have hsub : ((List.range (len + 1)).filterMap fun i => (e i).map Prod.fst).Subperm
      lists.flatten :=
    subperm_of_steps hmem hfrom fun i j hij hj => steps_ne h hij (by omega)
  rw [filterMap_range_succ] at hsub
  simp only [e, choose_fst] at hsub
  exact hsub

end Choice

/-! ## The proxy of a connection -/

/-- The step after the proxy in the last list. -/
def stepBehind (lists : List (List (List Char))) (proxy : List Char) : Nat :=
  lists.foldl (fun _ dstr => stepAfter dstr proxy) 0

theorem mem_entries {k t : Nat} {l : List (List Char)} {proxy : List Char}
    (h : l[t]? = some proxy) : (proxy, k, t) ∈ entries k l := by
  refine List.mem_map.mpr ⟨(proxy, t), ?_, rfl⟩
  exact List.mem_zipIdx_iff_getElem?.mpr h

theorem stepAfter_of_mem {dstr : List (List Char)} {proxy : List Char} (h : proxy ∈ dstr) :
    ∃ i, dstr[i]? = some proxy ∧ (i + 1 = dstr.length ∧ stepAfter dstr proxy = 0 ∨
      i + 1 < dstr.length ∧ stepAfter dstr proxy = i + 1) := by
  have hi : dstr.findIdx (· = proxy) < dstr.length :=
    List.findIdx_lt_length_of_exists ⟨proxy, h, by simp⟩
  refine ⟨dstr.findIdx (· = proxy), ?_, ?_⟩
  · have := List.findIdx_getElem (w := hi)
    rw [List.getElem?_eq_getElem hi]
    simpa using this
  · unfold stepAfter
    rcases Nat.eq_or_lt_of_le hi with heq | hlt
    · exact .inl ⟨heq, if_pos (Nat.le_of_eq heq.symm)⟩
    · exact .inr ⟨hlt, if_neg (Nat.not_le_of_lt hlt)⟩

theorem stepAfter_of_not_mem {dstr : List (List Char)} {proxy : List Char} (h : proxy ∉ dstr) :
    stepAfter dstr proxy = 0 := by
  have hi : dstr.findIdx (· = proxy) = dstr.length := by
    refine List.findIdx_eq_length.mpr fun x hx => ?_
    refine decide_eq_false ?_
    rintro rfl
    exact h hx
  unfold stepAfter
  rw [hi]
  exact if_pos (Nat.le_succ _)

theorem stepBehind_snoc (init : List (List (List Char))) (last : List (List Char))
    (proxy : List Char) : stepBehind (init ++ [last]) proxy = stepAfter last proxy := by
  simp [stepBehind]

theorem stepBehind_place {lists : List (List (List Char))} {proxy : List Char}
    (h : proxy ∈ lists.flatten) :
    ∃ x ∈ (numbered lists).flatten, x.1 = proxy ∧ ComesFrom lists (stepBehind lists proxy) x := by
  rcases List.eq_nil_or_concat lists with rfl | ⟨init, last, rfl⟩
  · cases h
  · rw [List.concat_eq_append] at *
    have hbefore : ∀ v, placeBefore (init ++ [last]) v = (init.length, v - 1) := by
      intro v
      simp [placeBefore]
    rw [stepBehind_snoc, numbered_snoc, List.flatten_append]
    by_cases hlast : proxy ∈ last
    · obtain ⟨i, hget, hstep⟩ := stepAfter_of_mem hlast
      have hmem : (proxy, init.length, i) ∈ entries init.length last := mem_entries hget
      refine ⟨(proxy, init.length, i), List.mem_append_right _ (by simpa using hmem), rfl, ?_, ?_⟩
      · intro h0
        obtain ⟨hlt, hstep⟩ := hstep.resolve_left fun h => h0 h.2
        rw [hstep, lastLength_snoc, hbefore]
        exact ⟨hlt, by simp⟩
      · intro v h0 hv heq
        rw [lastLength_snoc] at hv
        rw [hbefore] at heq
        have := congrArg Prod.snd heq
        simp only at this
        rcases hstep with ⟨hend, -⟩ | ⟨-, hstep⟩ <;> omega
    · have hinit : proxy ∈ init.flatten := by
        rw [List.flatten_append, List.mem_append] at h
        exact h.resolve_right fun h => hlast (by simpa using h)
      rw [← numbered_map init, ← List.map_flatten] at hinit
      obtain ⟨x, hx, rfl⟩ := List.mem_map.mp hinit
      refine ⟨x, List.mem_append_left _ hx, rfl, ?_, ?_⟩
      · intro h0
        exact absurd (stepAfter_of_not_mem hlast) h0
      · intro v _ _ heq
        have hplace := place_lt hx
        rw [heq, hbefore] at hplace
        exact absurd hplace (Nat.lt_irrefl _)

theorem stepBehind_lt {lists : List (List (List Char))} (proxy : List Char) :
    stepBehind lists proxy < max 1 (lastLength lists) := by
  rcases List.eq_nil_or_concat lists with rfl | ⟨init, last, rfl⟩
  · exact Nat.zero_lt_one
  · rw [List.concat_eq_append, stepBehind_snoc, lastLength_snoc]
    by_cases hlast : proxy ∈ last
    · obtain ⟨i, -, ⟨-, hstep⟩ | ⟨hlt, hstep⟩⟩ := stepAfter_of_mem hlast
      · rw [hstep]
        exact Nat.lt_of_lt_of_le Nat.zero_lt_one (Nat.le_max_left _ _)
      · rw [hstep]
        exact Nat.lt_of_lt_of_le hlt (Nat.le_max_right _ _)
    · rw [stepAfter_of_not_mem hlast]
      exact Nat.lt_of_lt_of_le Nat.zero_lt_one (Nat.le_max_left _ _)

/-- With one argument the step comes to 0 from everywhere. -/
theorem arrives_advance {α : Type} (dstr : List α) (s : Nat) : Arrives (advance [dstr]) 0 s := by
  have hback : ∀ k s, dstr.length - s ≤ k → Arrives (advance [dstr]) 0 s := by
    intro k
    induction k with
    | zero =>
      intro s hs
      refine .of_next ⟨0, ?_⟩
      have hnone : dstr[s]? = none := List.getElem?_eq_none (by omega)
      show (nextProxy dstr s).2 = 0
      rw [nextProxy, hnone]
    | succ k ih =>
      intro s hs
      refine .of_next ?_
      show Arrives (advance [dstr]) 0 (nextProxy dstr s).2
      rcases nextProxy_cases dstr s with hn | ⟨_, _, _, hn⟩ | ⟨_, _, _, hn⟩
      · exact ⟨0, congrArg Prod.snd hn⟩
      · exact ⟨0, congrArg Prod.snd hn⟩
      · rw [hn]
        exact ih (s + 1) (by omega)
  exact hback _ s (Nat.le_refl _)

end Zoom
end Metaproxy
