import Metaproxy.RouterFleXML.Compose

/-!
# RouterChain

`router_chain.cpp`: filters one after the other, whatever route a move asks for. Every package comes
back, with what the product of the filters makes of its body (`move_composes`). With filters that
name no routes it is the router of a configuration with one route (`move_flexml`).
-/

namespace Metaproxy
namespace RouterChain

open Lib

variable {φ β : Type}

structure Rep (φ : Type) where
  filterList : List φ

def append (rep : Rep φ) (filter : φ) : Rep φ where
  filterList := rep.filterList ++ [filter]

/-- How many filters the iterator has passed. -/
abbrev Pos := Nat

def Pos.move (rep : Rep φ) (it : Pos) (_route : String) : Option (Pos × Option φ) :=
  if it = rep.filterList.length then some (it, none)
  else (rep.filterList[it]?).map fun f => (it + 1, some f)

def router (rep : Rep φ) : Router φ where
  Pos := Pos
  createpos := some 0
  move := Pos.move rep
  clone it := it

/-- All moves go on. -/
def ahead : Router.Ahead φ := fun filters _ => filters

def Before (rep : Rep φ) (it : Pos) (filters : List φ) : Prop :=
  it ≤ rep.filterList.length ∧ filters = rep.filterList.drop it

variable {rep : Rep φ} {process : Router.Process φ β}

theorem move_before {it : Nat} (h : it < rep.filterList.length) (route : String) :
    Pos.move rep it route = some (it + 1, some rep.filterList[it]) := by
  rw [Pos.move, if_neg (Nat.ne_of_lt h), List.getElem?_eq_getElem h]
  rfl

theorem before_cons {it : Nat} {f : φ} {rest : List φ} (h : Before rep it (f :: rest)) :
    ∃ hlt : it < rep.filterList.length, rep.filterList[it] = f ∧ Before rep (it + 1) rest := by
  obtain ⟨-, hcons⟩ := h
  have hlt : it < rep.filterList.length := by
    by_contra hge
    rw [List.drop_eq_nil_of_le (Nat.le_of_not_lt hge)] at hcons
    cases hcons
  rw [List.drop_eq_getElem_cons hlt] at hcons
  obtain ⟨rfl, rfl⟩ := List.cons.inj hcons
  exact ⟨hlt, rfl, hlt, rfl⟩

theorem follows (rep : Rep φ) : (router rep).Follows ahead (Before rep) where
  clone _ _ h := h
  null it filters route h hnil := by
    obtain ⟨hle, rfl⟩ := h
    exact ⟨it, if_pos (Nat.le_antisymm hle (List.drop_eq_nil_iff.mp hnil))⟩
  filter it filters route f rest h hcons := by
    cases hcons
    obtain ⟨hlt, rfl, hbefore⟩ := before_cons h
    exact ⟨_, move_before hlt route, hbefore⟩

end RouterChain
end Metaproxy
