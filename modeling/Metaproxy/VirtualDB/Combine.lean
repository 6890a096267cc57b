import Metaproxy.VirtualDB.Frontend

/-!
# VirtualDB.Combine

What `create_backend_from_databases` makes of the databases of a request
(`createBackend_combines`). It takes the first map of each database. The backend has their common
route and all their targets, each once, where it comes first; without a common route there is none,
and the error is about the first database that has no map or another route than those before it.
-/

namespace Metaproxy
namespace VirtualDB

variable {rep : Rep} {databases : List String} {firstRoute : Bool} {targets : List String}
  {route : String}

/-- The first map that matches. -/
def Rep.firstMap (rep : Rep) (db : String) : Option Map := rep.maps.find? fun m => m.match_ rep db

/-- Each database has a map, and the first has this route. -/
def Routed (rep : Rep) (databases : List String) (route : String) : Prop :=
  ∀ db ∈ databases, ∃ m, rep.firstMap db = some m ∧ m.route = route

/-- The targets of the first maps, without later duplicates. -/
def combinedTargets (rep : Rep) (databases : List String) : List String :=
  ((databases.filterMap rep.firstMap).flatMap (·.targets)).eraseDups

/-- Why there is no backend: the databases before have one route, and the next one has no map or
another route. -/
inductive Refused (rep : Rep) (databases : List String) : Bib1 × String → Prop where
  | noMap (before : List String) (db : String) (after : List String) (route : String) :
      databases = before ++ db :: after → Routed rep before route → rep.firstMap db = none →
      Refused rep databases (.databaseDoesNotExist, db)
  | conflict (before : List String) (db : String) (after : List String) (route : String) (m : Map) :
      databases = before ++ db :: after → before ≠ [] → Routed rep before route →
      rep.firstMap db = some m → m.route ≠ route →
      Refused rep databases (.combiOfSpecifiedDatabasesUnsupp, "")

theorem routed_nil (rep : Rep) (route : String) : Routed rep [] route := fun _ h => by cases h

theorem routed_cons {db : String} :
    Routed rep (db :: databases) route ↔
      (∃ m, rep.firstMap db = some m ∧ m.route = route) ∧ Routed rep databases route :=
  List.forall_mem_cons

/-! ## Targets -/

/-- Targets that are not there yet are appended. -/
def addTargets (targets new : List String) : List String :=
  new.foldl (fun ts t => if t ∈ ts then ts else ts ++ [t]) targets

theorem addTargets_eraseDups (targets new : List String) :
    addTargets targets.eraseDups new = (targets ++ new).eraseDups := by
  induction new generalizing targets with
  | nil => rw [List.append_nil]; rfl
  | cons t new ih =>
    have hstep : (if t ∈ targets.eraseDups then targets.eraseDups
        else targets.eraseDups ++ [t]) = (targets ++ [t]).eraseDups := by
      rw [List.eraseDups_append]
      by_cases ht : t ∈ targets
      · rw [if_pos (List.mem_eraseDups.mpr ht)]
        simp [List.removeAll, ht]
      · rw [if_neg (fun h => ht (List.mem_eraseDups.mp h))]
        simp [List.removeAll, ht, List.eraseDups_cons]
    rw [addTargets, List.foldl_cons, hstep, ← addTargets, ih, List.append_assoc]
    rfl

/-! ## The loop -/

theorem createLoop_cons {db : String} {m : Map} (hm : rep.firstMap db = some m) :
    createLoop rep (db :: databases) firstRoute targets route =
      if !firstRoute && route ≠ m.route then .error (.combiOfSpecifiedDatabasesUnsupp, "")
      else createLoop rep databases false (addTargets targets m.targets) m.route := by
  rw [Rep.firstMap] at hm
  rw [createLoop, hm]
  rfl

theorem createLoop_noMap {db : String} (hm : rep.firstMap db = none) :
    createLoop rep (db :: databases) firstRoute targets route =
      .error (.databaseDoesNotExist, db) := by
  rw [Rep.firstMap] at hm
  rw [createLoop, hm]

/-- The databases agree on a route, which is the one there is already, if there is one. -/
theorem createLoop_routed (firstRoute : Bool) (targets : List String) (route : String)
    {route' : String} (hrouted : Routed rep databases route')
    (hfirst : firstRoute = false → route = route') :
    ∃ last, (firstRoute = false ∨ databases ≠ [] → last = route') ∧
      createLoop rep databases firstRoute targets route = .ok
        (addTargets targets ((databases.filterMap rep.firstMap).flatMap (·.targets)), last) := by
  induction databases generalizing firstRoute targets route with
  | nil => exact ⟨route, fun h => hfirst (h.resolve_right fun hne => hne rfl), rfl⟩
  | cons db databases ih =>
    obtain ⟨⟨m, hm, rfl⟩, hrouted⟩ := routed_cons.mp hrouted
    have hagree : ¬ (!firstRoute && decide (route ≠ m.route)) = true := by
      cases firstRoute with
      | true => simp
      | false => simp [hfirst rfl]
    rw [createLoop_cons hm, if_neg hagree]
    obtain ⟨last, hlast, heq⟩ :=
      ih false (addTargets targets m.targets) m.route hrouted fun _ => rfl
    refine ⟨last, fun _ => hlast (.inl rfl), ?_⟩
    rw [heq, List.filterMap_cons_some hm, List.flatMap_cons, addTargets, addTargets, addTargets,
      List.foldl_append]

/-- Otherwise the loop ends at the first database that does not fit those before it. -/
theorem createLoop_refused (firstRoute : Bool) (targets : List String) (route : String)
    {route' : String} (hfirst : firstRoute = false → route = route')
    (hnot : ∀ r, (firstRoute = false → r = route') → ¬ Routed rep databases r) :
    ∃ before db after r, databases = before ++ db :: after ∧ Routed rep before r ∧
      (firstRoute = false → r = route') ∧
      ((rep.firstMap db = none ∧
          createLoop rep databases firstRoute targets route = .error (.databaseDoesNotExist, db)) ∨
        ∃ m, rep.firstMap db = some m ∧ m.route ≠ r ∧ (firstRoute = false ∨ before ≠ []) ∧
          createLoop rep databases firstRoute targets route =
            .error (.combiOfSpecifiedDatabasesUnsupp, "")) := by
  induction databases generalizing firstRoute targets route route' with
  | nil => exact absurd (routed_nil rep route') (hnot route' fun _ => rfl)
  | cons db databases ih =>
    cases hm : rep.firstMap db with
    | none =>
      exact ⟨[], db, databases, route', rfl, routed_nil rep _, fun _ => rfl,
        .inl ⟨hm, createLoop_noMap hm⟩⟩
    | some m =>
      rw [createLoop_cons hm]
      by_cases hconflict : (!firstRoute && decide (route ≠ m.route)) = true
      · -- the route of this one conflicts
        rw [if_pos hconflict]
        obtain ⟨hfalse, hne⟩ := Bool.and_eq_true_iff.mp hconflict
        have hfalse : firstRoute = false := by simpa using hfalse
        have hne : m.route ≠ route' := hfirst hfalse ▸ Ne.symm (of_decide_eq_true hne)
        exact ⟨[], db, databases, route', rfl, routed_nil rep _, fun _ => rfl,
          .inr ⟨m, hm, hne, .inl hfalse, rfl⟩⟩
      · rw [if_neg hconflict]
        have hroute : firstRoute = false → m.route = route' := by
          intro hfalse
          by_contra hne
          refine hconflict ?_
          rw [hfalse, hfirst hfalse]
          simpa using Ne.symm hne
        obtain ⟨before, db', after, r, rfl, hbefore, hr, hcase⟩ :=
          ih false (addTargets targets m.targets) m.route
            (fun _ => rfl) fun r hr hrouted => hnot r (fun hfalse => (hr rfl).trans (hroute hfalse))
              (routed_cons.mpr ⟨⟨m, hm, (hr rfl).symm⟩, hrouted⟩)
        refine ⟨db :: before, db', after, r, rfl,
          routed_cons.mpr ⟨⟨m, hm, (hr rfl).symm⟩, hbefore⟩,
          fun hfalse => (hr rfl).trans (hroute hfalse), ?_⟩
        rcases hcase with hnone | ⟨m', hm', hne, -, heq⟩
        · exact .inl hnone
        · exact .inr ⟨m', hm', hne, .inr (List.cons_ne_nil _ _), heq⟩

/-! ## `create_backend_from_databases` -/

theorem createBackend_routed (session : Nat) (h : Routed rep databases route) :
    ∃ b, createBackendFromDatabases rep session databases = .ok b ∧
      Routed rep databases b.route ∧ b.targets = combinedTargets rep databases ∧
        b.frontendDatabases = databases := by
  obtain ⟨last, hlast, hloop⟩ := createLoop_routed true [] "" h fun h => by cases h
  have htargets : addTargets [] ((databases.filterMap rep.firstMap).flatMap (·.targets)) =
      combinedTargets rep databases := addTargets_eraseDups [] _
  have hrouted : Routed rep databases last := by
    cases databases with
    | nil => exact routed_nil rep last
    | cons db databases =>
      rw [hlast (.inr (List.cons_ne_nil _ _))]
      exact h
  rw [createBackendFromDatabases, hloop, htargets]
  exact ⟨_, rfl, hrouted, rfl, rfl⟩

theorem createBackend_refused (session : Nat) (h : ¬ ∃ route, Routed rep databases route) :
    ∃ e, createBackendFromDatabases rep session databases = .error e ∧ Refused rep databases e := by
  have hfirst : true = false → "" = "" := fun _ => rfl
  obtain ⟨before, db, after, r, hsplit, hbefore, -, hcase⟩ :=
    createLoop_refused true [] "" hfirst fun r _ hr => h ⟨r, hr⟩
  rw [createBackendFromDatabases]
  rcases hcase with ⟨hnone, hloop⟩ | ⟨m, hm, hne, hnonempty, hloop⟩
  · rw [hloop]
    exact ⟨_, rfl, .noMap before db after r hsplit hbefore hnone⟩
  · rw [hloop]
    exact ⟨_, rfl, .conflict before db after r m hsplit (hnonempty.resolve_left (by decide))
      hbefore hm hne⟩

/-- There is a backend if and only if the databases have one route. It has that route and their
targets; otherwise the error is about the first database that does not fit. -/
theorem createBackend_combines (rep : Rep) (session : Nat) (databases : List String) :
    ((∃ b, createBackendFromDatabases rep session databases = .ok b) ↔
      ∃ route, Routed rep databases route) ∧
    (∀ b, createBackendFromDatabases rep session databases = .ok b →
      Routed rep databases b.route ∧ b.targets = combinedTargets rep databases ∧
        b.frontendDatabases = databases) ∧
    ∀ e, createBackendFromDatabases rep session databases = .error e →
      Refused rep databases e := by
  by_cases hrouted : ∃ route, Routed rep databases route
  · obtain ⟨route, hroute⟩ := hrouted
    obtain ⟨b, hb, hspec⟩ := createBackend_routed session hroute
    rw [hb]
    refine ⟨iff_of_true ⟨b, rfl⟩ ⟨route, hroute⟩, fun b' hb' => ?_, fun e he => ?_⟩
    · cases hb'
      exact hspec
    · cases he
  · obtain ⟨e, he, hspec⟩ := createBackend_refused session hrouted
    rw [he]
    refine ⟨iff_of_false ?_ hrouted, fun b hb => ?_, fun e' he' => ?_⟩
    · rintro ⟨b, hb⟩
      cases hb
    · cases hb
    · cases he'
      exact hspec

/-- Two maps share a target, and the third request database has another route. -/
example :
    let rep : Rep := ⟨[⟨"a", ["x", "y"], "r"⟩, ⟨"b", ["y", "z"], "r"⟩, ⟨"c", ["x"], "q"⟩],
      fun pattern db => pattern = db, fun _ => none⟩
    (createBackendFromDatabases rep 1 ["B", "a", "b"]).toOption.map (·.targets) =
        some ["y", "z", "x"] ∧
      createBackendFromDatabases rep 1 ["a", "b", "c", "d"] =
        .error (.combiOfSpecifiedDatabasesUnsupp, "") := by
  decide

end VirtualDB
end Metaproxy
