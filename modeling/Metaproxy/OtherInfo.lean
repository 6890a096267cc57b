import Mathlib.Data.List.NodupEquivFin
import Mathlib.Data.List.Range

/-!
# OtherInfo

The virtual hosts in the `otherInfo` of an init request (`util.cpp`): strings in units of the
category `yaz_oid_userinfo_proxy` with the values 1, 2, and so on. `YazOi` is what the code uses of
YAZ on a `Z_OtherInformation`.

* `Reads` — the strings from one value on, up to the first value without one.
* `reads_get`, `reads_remove` — the loops read exactly these.
* `infos_remove`, `infos_set` — what removing and setting virtual hosts leaves in each category.
-/

namespace Metaproxy

/-- `yaz_oi_get_string_oid` and `yaz_oi_set_string_oid` for `yaz_oid_userinfo_proxy`. Both take the
first unit of a category value, and deleting takes that unit out whatever information it has. -/
structure YazOi (OtherInfo : Type*) where
  /-- The informations under a category value in their order, `none` for one that is no string. -/
  infos : OtherInfo → Int → List (Option String)
  numElements : OtherInfo → Nat
  get : OtherInfo → Int → Option String
  remove : OtherInfo → Int → OtherInfo
  set : OtherInfo → Int → String → OtherInfo
  get_eq : ∀ o cat, get o cat = (infos o cat).head?.join
  infos_remove_eq : ∀ o cat cat', infos (remove o cat) cat' =
    if cat' = cat then (infos o cat).tail else infos o cat'
  infos_set_eq : ∀ o cat s cat', infos (set o cat s) cat' =
    if cat' = cat then some s :: (infos o cat).tail else infos o cat'
  /-- Each unit has one category. -/
  le_numElements : ∀ o (n : Nat), (∀ i : Nat, 1 ≤ i → i ≤ n → infos o i ≠ []) → n ≤ numElements o

namespace YazOi

variable {OtherInfo : Type*} (yaz : YazOi OtherInfo)

/-- The loop of `get_or_remove_vhost_otherinfo`, for at most `fuel` rounds. -/
def getOrRemoveFrom (removeFlag : Bool) : Nat → OtherInfo → Nat → List String →
    Nat × List String × OtherInfo
  | 0, otherInformation, cat, vhosts => (cat - 1, vhosts, otherInformation)
  | fuel + 1, otherInformation, cat, vhosts =>
    let rest := if removeFlag then yaz.remove otherInformation cat else otherInformation
    match yaz.get otherInformation cat with
    | none => (cat - 1, vhosts, rest)
    | some vhost => getOrRemoveFrom removeFlag fuel rest (cat + 1) (vhosts ++ [vhost])

/-- `get_or_remove_vhost_otherinfo`. -/
def getOrRemoveVhostOtherinfo (otherInformation : OtherInfo) (removeFlag : Bool) :
    Nat × List String × OtherInfo :=
  yaz.getOrRemoveFrom removeFlag (yaz.numElements otherInformation + 1) otherInformation 1 []

/-- `get_vhost_otherinfo`. -/
def getVhostOtherinfo (otherInformation : OtherInfo) : List String :=
  (yaz.getOrRemoveVhostOtherinfo otherInformation false).2.1

/-- `remove_vhost_otherinfo`. -/
def removeVhostOtherinfo (otherInformation : OtherInfo) : List String × OtherInfo :=
  (yaz.getOrRemoveVhostOtherinfo otherInformation true).2

def setVhostsFrom (otherInformation : OtherInfo) : Nat → List String → OtherInfo
  | _, [] => otherInformation
  | cat, vhost :: vhosts => setVhostsFrom (yaz.set otherInformation cat vhost) (cat + 1) vhosts

/-- `set_vhost_otherinfo`. -/
def setVhostOtherinfo (otherInformation : OtherInfo) (vhosts : List String) : OtherInfo :=
  yaz.setVhostsFrom otherInformation 1 vhosts

/-! ## Reading -/

/-- `vhosts` are the strings from a value on, up to the first value without one. -/
inductive Reads (f : Nat → Option String) : Nat → List String → Prop where
  | stop {cat : Nat} : f cat = none → Reads f cat []
  | more {cat : Nat} {vhost : String} {vhosts : List String} :
      f cat = some vhost → Reads f (cat + 1) vhosts → Reads f cat (vhost :: vhosts)

theorem Reads.congr {f g : Nat → Option String} {cat : Nat} {vhosts : List String}
    (h : Reads f cat vhosts) (hfg : ∀ c, cat ≤ c → f c = g c) : Reads g cat vhosts := by
  induction h with
  | stop hstop => exact .stop ((hfg _ (Nat.le_refl _)).symm.trans hstop)
  | more hmore _ ih =>
    refine .more ((hfg _ (Nat.le_refl _)).symm.trans hmore) (ih ?_)
    intro c hc
    exact hfg c (Nat.le_of_succ_le hc)

/-- There is one answer. -/
theorem Reads.unique {f : Nat → Option String} {cat : Nat} {vhosts vhosts' : List String}
    (h : Reads f cat vhosts) (h' : Reads f cat vhosts') : vhosts = vhosts' := by
  induction h generalizing vhosts' with
  | stop hstop =>
    cases h' with
    | stop _ => rfl
    | more hmore _ =>
      rw [hstop] at hmore
      cases hmore
  | more hmore _ ih =>
    cases h' with
    | stop hstop =>
      rw [hstop] at hmore
      cases hmore
    | more hmore' hrest =>
      rw [hmore] at hmore'
      cases hmore'
      rw [ih hrest]

variable {yaz} {o cur : OtherInfo}

theorem get_congr {o' : OtherInfo} {cat : Int} (h : yaz.infos o cat = yaz.infos o' cat) :
    yaz.get o cat = yaz.get o' cat := by
  rw [yaz.get_eq, yaz.get_eq, h]

theorem infos_ne_nil {cat : Int} {vhost : String} (h : yaz.get o cat = some vhost) :
    yaz.infos o cat ≠ [] := by
  intro hnil
  rw [yaz.get_eq, hnil] at h
  cases h

/-- The loop over `cur`, which is `o` with the units below `cat` possibly taken out: it reads what
`o` has from `cat` on, and takes out the first unit of every value it looks at. -/
theorem getOrRemoveFrom_spec (removeFlag : Bool) (o cur : OtherInfo) (fuel cat : Nat)
    (acc : List String) (hcat : 1 ≤ cat) (hbelow : ∀ i : Nat, 1 ≤ i → i < cat → yaz.infos o i ≠ [])
    (hfuel : yaz.numElements o + 2 ≤ fuel + cat)
    (hcur : ∀ c : Int, cat ≤ c → yaz.infos cur c = yaz.infos o c) :
    ∃ vhosts, Reads (fun c => yaz.get o c) cat vhosts ∧
      (yaz.getOrRemoveFrom removeFlag fuel cur cat acc).2.1 = acc ++ vhosts ∧
      ∀ c : Int, yaz.infos (yaz.getOrRemoveFrom removeFlag fuel cur cat acc).2.2 c =
        if removeFlag = true ∧ cat ≤ c ∧ c ≤ cat + vhosts.length then (yaz.infos cur c).tail
        else yaz.infos cur c := by
  induction fuel generalizing cur cat acc with
  | zero =>
    have hle := yaz.le_numElements o (cat - 1) fun i hi hlt => hbelow i hi (by omega)
    omega
  | succ fuel ih =>
    have hget : yaz.get cur cat = yaz.get o cat := get_congr (hcur cat (Int.le_refl _))
    have hrest (c : Int) : yaz.infos (if removeFlag then yaz.remove cur cat else cur) c =
        if removeFlag = true ∧ c = cat then (yaz.infos cur c).tail else yaz.infos cur c := by
      cases removeFlag with
      | false => simp
      | true =>
        simp only [if_true, true_and, yaz.infos_remove_eq]
        split
        · rename_i hc
          rw [hc]
        · rfl
    simp only [getOrRemoveFrom]
    cases hvhost : yaz.get o cat with
    | none =>
      refine ⟨[], .stop hvhost, ?_, ?_⟩
      · rw [hget, hvhost, List.append_nil]
      · intro c
        rw [hget, hvhost, hrest]
        have hiff : c = cat ↔ (cat : Int) ≤ c ∧ c ≤ cat + ([] : List String).length := by
          simp only [List.length_nil]
          omega
        simp only [hiff]
    | some vhost =>
      obtain ⟨vhosts, hreads, hacc, hinfos⟩ :=
        ih (if removeFlag then yaz.remove cur cat else cur) (cat + 1) (acc ++ [vhost])
          (Nat.le_succ_of_le hcat)
          (by
            intro i hi hlt
            by_cases heq : i = cat
            · rw [heq]
              exact infos_ne_nil hvhost
            · exact hbelow i hi (by omega))
          (by omega)
          (by
            intro c hc
            have hne : ¬ (removeFlag = true ∧ c = cat) := fun h => by omega
            rw [hrest, if_neg hne]
            exact hcur c (by omega))
      refine ⟨vhost :: vhosts, .more hvhost hreads, ?_, ?_⟩
      · rw [hget, hvhost]
        simp only [hacc, List.append_assoc, List.singleton_append]
      · intro c
        rw [hget, hvhost]
        simp only [hinfos, hrest, List.length_cons]
        cases removeFlag with
        | false => simp
        | true =>
          simp only [true_and]
          by_cases heq : c = cat
          · rw [if_neg (by omega), if_pos heq, if_pos (by omega)]
          · have hiff : (((cat + 1 : Nat) : Int) ≤ c ∧ c ≤ ((cat + 1 : Nat) : Int) + vhosts.length) ↔
                ((cat : Int) ≤ c ∧ c ≤ cat + ((vhosts.length + 1 : Nat) : Int)) := by omega
            simp only [hiff, if_neg heq]

theorem getOrRemove_spec (o : OtherInfo) (removeFlag : Bool) :
    Reads (fun c => yaz.get o c) 1 (yaz.getOrRemoveVhostOtherinfo o removeFlag).2.1 ∧
      ∀ c : Int, yaz.infos (yaz.getOrRemoveVhostOtherinfo o removeFlag).2.2 c =
        if removeFlag = true ∧ 1 ≤ c ∧
            c ≤ 1 + (yaz.getOrRemoveVhostOtherinfo o removeFlag).2.1.length
        then (yaz.infos o c).tail else yaz.infos o c := by
  obtain ⟨vhosts, hreads, hacc, hinfos⟩ :=
    getOrRemoveFrom_spec removeFlag o o (yaz.numElements o + 1) 1 [] (Nat.le_refl 1)
      (fun i hi hlt => by omega) (Nat.le_refl _) (fun _ _ => rfl)
  have heq : (yaz.getOrRemoveVhostOtherinfo o removeFlag).2.1 = vhosts := hacc
  rw [heq]
  exact ⟨hreads, hinfos⟩

theorem reads_get (o : OtherInfo) : Reads (fun c => yaz.get o c) 1 (yaz.getVhostOtherinfo o) :=
  (getOrRemove_spec o false).1

theorem removed_eq (o : OtherInfo) : (yaz.removeVhostOtherinfo o).1 = yaz.getVhostOtherinfo o :=
  (getOrRemove_spec o true).1.unique (reads_get o)

/-- Removing takes out the first unit of the value it stops at, too. -/
theorem infos_removeVhosts (o : OtherInfo) (c : Int) :
    yaz.infos (yaz.removeVhostOtherinfo o).2 c =
      if 1 ≤ c ∧ c ≤ 1 + (yaz.getVhostOtherinfo o).length then (yaz.infos o c).tail
      else yaz.infos o c := by
  have h : yaz.infos (yaz.getOrRemoveVhostOtherinfo o true).2.2 c = _ :=
    (getOrRemove_spec o true).2 c
  rw [← removed_eq]
  exact h.trans (if_congr (and_iff_right rfl) rfl rfl)

/-! ## Writing -/

theorem infos_setVhosts_below {cat : Nat} {vhosts : List String} {c : Int} (hc : c < cat) :
    yaz.infos (yaz.setVhostsFrom o cat vhosts) c = yaz.infos o c := by
  induction vhosts generalizing o cat with
  | nil => rfl
  | cons vhost vhosts ih =>
    rw [setVhostsFrom, ih (by omega), yaz.infos_set_eq, if_neg (by omega)]

theorem reads_setVhostsFrom {cat : Nat} {vhosts all : List String}
    (h : Reads (fun c => yaz.get (yaz.setVhostsFrom o cat vhosts) c) cat all) :
    ∃ rest, all = vhosts ++ rest ∧ Reads (fun c => yaz.get o c) (cat + vhosts.length) rest := by
  induction vhosts generalizing o cat all with
  | nil => exact ⟨all, rfl, h⟩
  | cons vhost vhosts ih =>
    have hfirst : yaz.get (yaz.setVhostsFrom o cat (vhost :: vhosts)) cat = some vhost := by
      rw [setVhostsFrom, yaz.get_eq, infos_setVhosts_below (by omega), yaz.infos_set_eq, if_pos rfl]
      rfl
    cases h with
    | stop hstop =>
      rw [hfirst] at hstop
      cases hstop
    | more hmore hrest =>
      rw [hfirst] at hmore
      cases hmore
      obtain ⟨rest, rfl, hreads⟩ := ih hrest
      refine ⟨rest, rfl, ?_⟩
      have hcat : cat + (vhost :: vhosts).length = cat + 1 + vhosts.length := by
        rw [List.length_cons]
        omega
      rw [hcat]
      refine hreads.congr fun c hc => get_congr ?_
      rw [yaz.infos_set_eq, if_neg (by omega)]

/-- After setting, the virtual hosts are those that were set and what is left behind them. -/
theorem get_setVhosts (yaz : YazOi OtherInfo) (o : OtherInfo) (vhosts : List String) :
    ∃ rest, yaz.getVhostOtherinfo (yaz.setVhostOtherinfo o vhosts) = vhosts ++ rest ∧
      Reads (fun c => yaz.get o c) (1 + vhosts.length) rest :=
  reads_setVhostsFrom (reads_get _)

/-! ## Units in a list -/

/-- A unit of the proxy category, and its string if it has one. -/
abbrev Unit := Int × Option String

namespace Units

def infos (units : List Unit) (cat : Int) : List (Option String) :=
  (units.filter fun u => u.1 = cat).map (·.2)

def remove : List Unit → Int → List Unit
  | [], _ => []
  | u :: units, cat => if u.1 = cat then units else u :: remove units cat

def set : List Unit → Int → String → List Unit
  | [], cat, s => [(cat, some s)]
  | u :: units, cat, s => if u.1 = cat then (cat, some s) :: units else u :: set units cat s

theorem infos_cons (u : Unit) (units : List Unit) (cat : Int) :
    infos (u :: units) cat = if u.1 = cat then u.2 :: infos units cat else infos units cat := by
  by_cases h : u.1 = cat <;> simp [infos, h]

theorem infos_remove (units : List Unit) (cat cat' : Int) :
    infos (remove units cat) cat' =
      if cat' = cat then (infos units cat).tail else infos units cat' := by
  induction units with
  | nil => simp [remove, infos]
  | cons u units ih =>
    by_cases hu : u.1 = cat
    · rw [remove, if_pos hu, infos_cons, infos_cons, if_pos hu, List.tail_cons]
      by_cases hcat : cat' = cat
      · rw [if_pos hcat, hcat]
      · rw [if_neg hcat, if_neg (by omega)]
    · rw [remove, if_neg hu, infos_cons, infos_cons, infos_cons, if_neg hu, ih]
      by_cases hcat : cat' = cat
      · rw [if_pos hcat, if_pos hcat, if_neg (by omega)]
      · rw [if_neg hcat, if_neg hcat]

theorem infos_set (units : List Unit) (cat : Int) (s : String) (cat' : Int) :
    infos (set units cat s) cat' =
      if cat' = cat then some s :: (infos units cat).tail else infos units cat' := by
  induction units with
  | nil =>
    rw [set, infos_cons]
    by_cases hcat : cat' = cat
    · rw [if_pos hcat, if_pos hcat.symm]
      rfl
    · rw [if_neg hcat, if_neg (Ne.symm hcat)]
  | cons u units ih =>
    by_cases hu : u.1 = cat
    · rw [set, if_pos hu, infos_cons, infos_cons, infos_cons, if_pos hu, List.tail_cons]
      by_cases hcat : cat' = cat
      · rw [if_pos hcat, if_pos hcat.symm, hcat]
      · rw [if_neg hcat, if_neg (Ne.symm hcat), if_neg (by omega)]
    · rw [set, if_neg hu, infos_cons, infos_cons, infos_cons, if_neg hu, ih]
      by_cases hcat : cat' = cat
      · rw [if_pos hcat, if_pos hcat, if_neg (by omega)]
      · rw [if_neg hcat, if_neg hcat]

theorem le_length (units : List Unit) (n : Nat)
    (h : ∀ i : Nat, 1 ≤ i → i ≤ n → infos units i ≠ []) : n ≤ units.length := by
  have hsub : (List.range' 1 n).map (fun i : Nat => (i : Int)) ⊆ units.map Prod.fst := by
    intro cat hcat
    obtain ⟨i, hi, rfl⟩ := List.mem_map.mp hcat
    rw [List.mem_range'_1] at hi
    obtain ⟨info, hinfo⟩ := List.exists_mem_of_ne_nil _ (h i hi.1 (by omega))
    obtain ⟨u, hu, -⟩ := List.mem_map.mp hinfo
    rw [List.mem_filter, decide_eq_true_eq] at hu
    exact List.mem_map.mpr ⟨u, hu⟩
  have hnodup : ((List.range' 1 n).map fun i : Nat => (i : Int)).Nodup :=
    List.Nodup.map (fun _ _ hij => Int.ofNat_inj.mp hij) List.nodup_range'
  simpa using (List.subperm_of_subset hnodup hsub).length_le

end Units

/-- An `otherInfo` that is a list of units. -/
def units : YazOi (List Unit) where
  infos := Units.infos
  numElements := List.length
  get us cat := (Units.infos us cat).head?.join
  remove := Units.remove
  set := Units.set
  get_eq _ _ := rfl
  infos_remove_eq := Units.infos_remove
  infos_set_eq := Units.infos_set
  le_numElements := Units.le_length

end YazOi
end Metaproxy
