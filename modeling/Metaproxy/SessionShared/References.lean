import Mathlib.Data.Set.Basic
import Metaproxy.Lib.Run
import Metaproxy.SessionShared.Query

/-!
# SessionShared.References

What a query means once its references to result sets are expanded.

An operand is read in an attribute set: that of its attributes, or else the one of the RPN query.
`Interp` gives operands so read as sets of records, and a query denotes a set of records when its
references do. Next to `m_frontend_sets` the runs here keep `made`: the tree of the search that made
each set, every operand next to the attribute set of the query it was submitted in. Its meaning is
the set that search produced.

* `stored` — in every run, a stored query refers to no result set and its tree is, but for the
  attribute sets, the tree of the search that made the set.
* `passed_iff` — a search whose references are all known is rejected for them exactly when it
  refers to the set that it replaces: `search` erases that one first.
* `references_expand` — what the expanded query denotes, with every operand read in the attribute
  set it was submitted in, and under which condition the query as it is passed on denotes the same.
-/

namespace Metaproxy
namespace SessionShared

open Lib

/-! ## Meaning -/

/-- What operands mean, their attribute sets being explicit. -/
structure Interp (ρ : Type*) where
  apt : List AttributeElement → List UInt8 → Set ρ
  resultAttr : String → List AttributeElement → Set ρ
  prox : List UInt8 → Set ρ → Set ρ → Set ρ

/-- Every attribute of the operand names its attribute set. -/
def Operand.Explicit : Operand → Prop
  | .apt attributes _ => ∀ e ∈ attributes, e.attributeSet.isSome
  | .resultSetId _ => True
  | .resultAttr _ attributes => ∀ e ∈ attributes, e.attributeSet.isSome

/-- An operand read in the attribute set `a`. -/
def Operand.readIn (a : Oid) : Operand → Operand
  | .apt attributes term =>
    .apt (attributes.map fun e => { e with attributeSet := some (e.attributeSet.getD a) }) term
  | .resultSetId id => .resultSetId id
  | .resultAttr id attributes =>
    .resultAttr id (attributes.map fun e => { e with attributeSet := some (e.attributeSet.getD a) })

namespace Interp

variable {ρ : Type*} (I : Interp ρ)

def operator : Operator → Set ρ → Set ρ → Set ρ
  | .and, x, y => x ∩ y
  | .or, x, y => x ∪ y
  | .andNot, x, y => x \ y
  | .prox encoding, x, y => I.prox encoding x y

def operand (refs : String → Set ρ) : Operand → Set ρ
  | .apt attributes term => I.apt attributes term
  | .resultSetId id => refs id
  | .resultAttr id attributes => I.resultAttr id attributes

/-- The records of a query, given those of the sets it refers to. -/
def query (refs : String → Set ρ) (q : RPNQuery) : Set ρ :=
  q.rpn.eval I.operator fun op => I.operand refs (op.readIn q.attributeSetId)

/-- The records of a tree without references whose operands carry their attribute sets. -/
def labelled (t : Formula Operator (Oid × Operand)) : Set ρ :=
  t.eval I.operator fun op => I.operand (fun _ => ∅) (op.2.readIn op.1)

end Interp

/-! ## References -/

def refs (t : RPNStructure) : List String :=
  t.leaves.filterMap fun
    | .resultSetId id => some id
    | _ => none

theorem mem_refs {t : RPNStructure} {id : String} : id ∈ refs t ↔ .resultSetId id ∈ t.leaves := by
  simp only [refs, List.mem_filterMap]
  constructor
  · rintro ⟨op, hop, h⟩
    cases op <;> cases h
    exact hop
  · intro h
    exact ⟨_, h, rfl⟩

def Query.RefFree (query : Query) : Prop :=
  ∀ q, query.rpn? = some q → refs q.rpn = []

/-- `id` names a stored RPN query over the same databases. -/
def Refers (sets : FrontendSets) (databases : List String) (id : String) : Prop :=
  ∃ fset q, sets.lookup id = some fset ∧ Util.match_ fset.databases databases = true ∧
    fset.query.rpn? = some q

/-- What `result_set_ref` puts for an operand when nothing fails. -/
def expand (sets : FrontendSets) : Operand → RPNStructure
  | .resultSetId id =>
    match (sets.lookup id).bind fun fset => fset.query.rpn? with
    | some q => q.rpn
    | none => .leaf (.resultSetId id)
  | op => .leaf op

theorem expand_of_lookup {sets : FrontendSets} {id : String} {fset : FrontendSet} {q : RPNQuery}
    (hl : sets.lookup id = some fset) (hq : fset.query.rpn? = some q) :
    expand sets (.resultSetId id) = q.rpn := by
  simp [expand, hl, hq]

theorem resultSetRef_eq_ok {sets : FrontendSets} {databases : List String} {t t' : RPNStructure} :
    resultSetRef sets databases t = .ok t' ↔
      (∀ id ∈ refs t, Refers sets databases id) ∧ t' = t.bind (expand sets) := by
  induction t generalizing t' with
  | leaf op =>
    cases op with
    | apt attributes term => simp [resultSetRef, refs, Formula.leaves, Formula.bind, expand, eq_comm]
    | resultAttr id attributes =>
      simp [resultSetRef, refs, Formula.leaves, Formula.bind, expand, eq_comm]
    | resultSetId id =>
      have hrefs : refs (Formula.leaf (.resultSetId id)) = [id] := rfl
      rw [hrefs]
      simp only [resultSetRef, List.mem_singleton, forall_eq, Formula.bind]
      constructor
      · intro h
        split at h
        · cases h
        · rename_i fset hl
          split at h
          · rename_i hm
            split at h
            · rename_i q hq
              cases h
              exact ⟨⟨fset, q, hl, hm, hq⟩, (expand_of_lookup hl hq).symm⟩
            · cases h
          · cases h
      · rintro ⟨⟨fset, q, hl, hm, hq⟩, rfl⟩
        simp [hl, hm, hq, expand]
  | node s1 s2 op ih1 ih2 =>
    have hrefs : refs (.node s1 s2 op) = refs s1 ++ refs s2 := by simp [refs, Formula.leaves]
    rw [hrefs]
    simp only [resultSetRef, List.mem_append, Formula.bind]
    constructor
    · intro h
      split at h
      · cases h
      · rename_i t1 h1
        split at h
        · cases h
        · rename_i t2 h2
          cases h
          obtain ⟨hr1, rfl⟩ := ih1.mp h1
          obtain ⟨hr2, rfl⟩ := ih2.mp h2
          exact ⟨fun id hid => hid.elim (hr1 id) (hr2 id), rfl⟩
    · rintro ⟨hr, rfl⟩
      rw [ih1.mpr ⟨fun id hid => hr id (.inl hid), rfl⟩,
        ih2.mpr ⟨fun id hid => hr id (.inr hid), rfl⟩]

theorem refs_bind_expand {sets : FrontendSets} {databases : List String} {t : RPNStructure}
    (hfree : ∀ id fset, sets.lookup id = some fset → fset.query.RefFree)
    (hr : ∀ id ∈ refs t, Refers sets databases id) : refs (t.bind (expand sets)) = [] := by
  rw [List.eq_nil_iff_forall_not_mem]
  intro id hid
  obtain ⟨op, hop, hmem⟩ := Formula.mem_leaves_bind.mp (mem_refs.mp hid)
  cases op with
  | apt attributes term => simp [expand, Formula.leaves] at hmem
  | resultAttr id' attributes => simp [expand, Formula.leaves] at hmem
  | resultSetId id' =>
    obtain ⟨fset, q, hl, -, hq⟩ := hr id' (mem_refs.mpr hop)
    rw [expand_of_lookup hl hq] at hmem
    have := hfree id' fset hl q hq
    rw [List.eq_nil_iff_forall_not_mem] at this
    exact this id (mem_refs.mpr hmem)

/-! ## Runs of searches on one frontend -/

/-- The search that made a set: its databases and its tree, every operand next to the attribute set
of the query it was submitted in, every reference replaced by the tree of the set it named. -/
structure Made where
  databases : List String
  tree : Formula Operator (Oid × Operand)

structure Searches where
  sets : FrontendSets
  made : String → Made

namespace Searches

/-- The records of the set `name`, as the search that made it found them. -/
def produced {ρ : Type*} (I : List String → Interp ρ) (s : Searches) (name : String) : Set ρ :=
  (I ((s.made name).databases.map Util.databaseNameNormalize)).labelled (s.made name).tree

/-- The tree of a query as it was submitted. -/
def submitted (s : Searches) (q : RPNQuery) : Formula Operator (Oid × Operand) :=
  q.rpn.bind fun
    | .resultSetId id => (s.made id).tree
    | op => .leaf (q.attributeSetId, op)

/-- A search, and whether `get_set` finds a set for it. -/
abbrev Label := SearchRequest × Bool

def step (s : Searches) (a : Label) : Option Searches :=
  some
    { sets := search s.sets a.1 a.2
      made :=
        match (prepareSearch s.sets a.1).2, a.1.query.rpn?, a.2 with
        | .ok _, some q, true =>
          Function.update s.made a.1.resultSetName ⟨a.1.databaseNames, s.submitted q⟩
        | _, _, _ => s.made }

def init (s : Searches) : Prop := s.sets = ∅

/-- Type-1 and type-101 queries only. -/
def IsRpn (_ : Searches) (a : Label) : Prop := a.1.query.rpn?.isSome

/-- The result set name is free, or may be replaced. -/
def Allowed (s : Searches) (req : SearchRequest) : Prop :=
  (s.sets.lookup req.resultSetName).isSome → req.replaceIndicator = true

/-- All references of a query name stored sets over its databases. -/
def Known (s : Searches) (req : SearchRequest) (q : RPNQuery) : Prop :=
  ∀ id ∈ refs q.rpn, ∃ fset, s.sets.lookup id = some fset ∧
    Util.match_ fset.databases req.databaseNames = true

/-- A query has the attribute set of every query it refers to, unless the operands that it takes
over all name theirs. -/
def SameAttributeSet (s : Searches) (q : RPNQuery) : Prop :=
  ∀ id ∈ refs q.rpn, ∀ fset q', s.sets.lookup id = some fset → fset.query.rpn? = some q' →
    q'.attributeSetId = q.attributeSetId ∨ ∀ op ∈ q'.rpn.leaves, op.Explicit

/-- As `IsRpn`, each query of `SameAttributeSet`. -/
def IsRpnSame (s : Searches) (a : Label) : Prop :=
  IsRpn s a ∧ ∀ q, a.1.query.rpn? = some q → s.SameAttributeSet q

/-! ### What `prepareSearch` does -/

theorem prepareSearch_allowed {s : Searches} {req : SearchRequest} {q : RPNQuery}
    (ha : s.Allowed req) (hq : req.query.rpn? = some q) :
    prepareSearch s.sets req = (s.sets.erase req.resultSetName,
      match resultSetRef (s.sets.erase req.resultSetName) req.databaseNames q.rpn with
      | .error e => .error e
      | .ok rpn => .ok (req.query.withRpn rpn)) := by
  simp only [prepareSearch, hq]
  rw [if_neg]
  · cases resultSetRef (s.sets.erase req.resultSetName) req.databaseNames q.rpn <;> rfl
  · intro h
    simp only [Bool.and_eq_true, Bool.not_eq_true'] at h
    rw [ha h.1] at h
    cases h.2

theorem prepareSearch_refused {s : Searches} {req : SearchRequest} (ha : ¬ s.Allowed req) :
    prepareSearch s.sets req = (s.sets, .error (.resultSetExistsAndReplaceIndicatorOff, "")) := by
  simp only [Allowed, Classical.not_imp, Bool.not_eq_true] at ha
  simp [prepareSearch, ha.1, ha.2]

theorem withRpn_rpn? {query : Query} {q : RPNQuery} (h : query.rpn? = some q) (t : RPNStructure) :
    (query.withRpn t).rpn? = some { q with rpn := t } := by
  cases query <;> cases h <;> rfl

theorem refers_erase {sets : FrontendSets} {databases : List String} {name id : String} :
    Refers (sets.erase name) databases id ↔ id ≠ name ∧ Refers sets databases id := by
  constructor
  · rintro ⟨fset, q, hl, h⟩
    have hne : id ≠ name := by
      rintro rfl
      simp at hl
    rw [AList.lookup_erase_ne hne] at hl
    exact ⟨hne, fset, q, hl, h⟩
  · rintro ⟨hne, fset, q, hl, h⟩
    exact ⟨fset, q, by rw [AList.lookup_erase_ne hne]; exact hl, h⟩

theorem expand_erase {sets : FrontendSets} {name : String} {t : RPNStructure}
    (h : name ∉ refs t) : t.bind (expand (sets.erase name)) = t.bind (expand sets) := by
  refine Formula.bind_congr fun op hop => ?_
  cases op with
  | apt attributes term => rfl
  | resultAttr id attributes => rfl
  | resultSetId id =>
    have hne : id ≠ name := by
      rintro rfl
      exact h (mem_refs.mpr hop)
    simp only [expand, AList.lookup_erase_ne hne]

/-- The query that a search passes on: the references are known, none of them is to the replaced
set, and each is replaced by the stored tree. -/
theorem prepareSearch_eq_ok {s : Searches} {req : SearchRequest} {q : RPNQuery} {query : Query}
    (ha : s.Allowed req) (hq : req.query.rpn? = some q) :
    (prepareSearch s.sets req).2 = .ok query ↔
      ((∀ id ∈ refs q.rpn, Refers s.sets req.databaseNames id) ∧ req.resultSetName ∉ refs q.rpn) ∧
        query = req.query.withRpn (q.rpn.bind (expand s.sets)) := by
  rw [prepareSearch_allowed ha hq]
  simp only
  constructor
  · intro h
    split at h
    · cases h
    · rename_i t ht
      obtain ⟨hr, rfl⟩ := resultSetRef_eq_ok.mp ht
      have hself : req.resultSetName ∉ refs q.rpn := fun hid => (refers_erase.mp (hr _ hid)).1 rfl
      rw [expand_erase hself] at h
      cases h
      exact ⟨⟨fun id hid => (refers_erase.mp (hr id hid)).2, hself⟩, rfl⟩
  · rintro ⟨⟨hk, hself⟩, rfl⟩
    have hr : ∀ id ∈ refs q.rpn,
        Refers (s.sets.erase req.resultSetName) req.databaseNames id := fun id hid =>
      refers_erase.mpr ⟨fun h => hself (h ▸ hid), hk id hid⟩
    rw [resultSetRef_eq_ok.mpr ⟨hr, rfl⟩, expand_erase hself]

/-- How a search changes the sets: one of them goes, or one is stored. -/
theorem step_cases {s s' : Searches} {req : SearchRequest} {found : Bool} {q : RPNQuery}
    (hq : req.query.rpn? = some q) (h : step s (req, found) = some s') :
    (s'.made = s.made ∧ (s'.sets = s.sets ∨ s'.sets = s.sets.erase req.resultSetName)) ∨
    (∃ query, s.Allowed req ∧ (prepareSearch s.sets req).2 = .ok query ∧
      s'.sets = (s.sets.erase req.resultSetName).insert req.resultSetName
        ⟨req.databaseNames, query⟩ ∧
      s'.made = Function.update s.made req.resultSetName ⟨req.databaseNames, s.submitted q⟩) := by
  cases h
  by_cases ha : s.Allowed req
  · have hprep := prepareSearch_allowed ha hq
    generalize (match resultSetRef (s.sets.erase req.resultSetName) req.databaseNames q.rpn with
      | .error e => Except.error e
      | .ok rpn => .ok (req.query.withRpn rpn)) = r at hprep
    cases r with
    | error e => exact .inl (by simp [search, hprep])
    | ok query =>
      cases found with
      | false => exact .inl (by simp [search, hprep, hq])
      | true => exact .inr ⟨query, ha, by rw [hprep], by simp [search, hprep, storeSet, hq]⟩
  · have hprep := prepareSearch_refused ha
    exact .inl (by simp [search, hprep])

/-! ### What is stored -/

/-- The tree that the search for `id` was made of, every operand read where it was submitted. -/
structure Stored (s : Searches) (id : String) (fset : FrontendSet) (q : RPNQuery) : Prop where
  query : fset.query.rpn? = some q
  refs : refs q.rpn = []
  tree : q.rpn = (s.made id).tree.map Prod.snd
  databases : fset.databases = (s.made id).databases

def AllStored (s : Searches) : Prop :=
  ∀ id fset, s.sets.lookup id = some fset → ∃ q, s.Stored id fset q

theorem refers_of_known {s : Searches} {req : SearchRequest} {q : RPNQuery} (hs : s.AllStored)
    (hk : s.Known req q) : ∀ id ∈ refs q.rpn, Refers s.sets req.databaseNames id := by
  intro id hid
  obtain ⟨fset, hl, hm⟩ := hk id hid
  obtain ⟨q', hq'⟩ := hs id fset hl
  exact ⟨fset, q', hl, hm, hq'.query⟩

theorem refFree_of_allStored {s : Searches} (hs : s.AllStored) {id : String} {fset : FrontendSet}
    (hl : s.sets.lookup id = some fset) : fset.query.RefFree := by
  intro q hq
  obtain ⟨q', hq'⟩ := hs id fset hl
  rw [hq'.query] at hq
  cases hq
  exact hq'.refs

/-- The expanded tree is the submitted one. -/
theorem bind_expand_eq {s : Searches} {databases : List String} {q : RPNQuery} (hs : s.AllStored)
    (hr : ∀ id ∈ refs q.rpn, Refers s.sets databases id) :
    q.rpn.bind (expand s.sets) = (s.submitted q).map Prod.snd := by
  rw [submitted, Formula.map_bind]
  refine Formula.bind_congr fun op hop => ?_
  cases op with
  | apt attributes term => rfl
  | resultAttr id attributes => rfl
  | resultSetId id =>
    obtain ⟨fset, q', hl, -, hq'⟩ := hr id (mem_refs.mpr hop)
    obtain ⟨q'', h⟩ := hs id fset hl
    rw [h.query] at hq'
    cases hq'
    rw [expand_of_lookup hl h.query, h.tree]

theorem stored_step {s s' : Searches} {a : Label} (hs : s.AllStored) (hok : IsRpn s a)
    (h : step s a = some s') : s'.AllStored := by
  obtain ⟨req, found⟩ := a
  obtain ⟨q, hq⟩ := Option.isSome_iff_exists.mp hok
  intro id fset hl
  rcases step_cases hq h with ⟨hmade, hsets⟩ | ⟨query, ha, hprep, hsets, hmade⟩
  · have hl' : s.sets.lookup id = some fset := by
      rcases hsets with hsets | hsets
      · rwa [hsets] at hl
      · rw [hsets] at hl
        exact Table.lookup_of_erase hl
    obtain ⟨q', h1, h2, h3, h4⟩ := hs id fset hl'
    exact ⟨q', h1, h2, by rw [hmade]; exact h3, by rw [hmade]; exact h4⟩
  · rw [hsets] at hl
    by_cases hid : id = req.resultSetName
    · subst hid
      rw [AList.lookup_insert] at hl
      cases hl
      obtain ⟨⟨hr, -⟩, rfl⟩ := (prepareSearch_eq_ok ha hq).mp hprep
      refine ⟨_, withRpn_rpn? hq _, ?_, ?_, ?_⟩
      · exact refs_bind_expand (fun _ _ hl => refFree_of_allStored hs hl) hr
      · rw [hmade, Function.update_self]
        exact bind_expand_eq hs hr
      · rw [hmade, Function.update_self]
    · rw [AList.lookup_insert_ne hid] at hl
      obtain ⟨q', h1, h2, h3, h4⟩ := hs id fset (Table.lookup_of_erase hl)
      refine ⟨q', h1, h2, ?_, ?_⟩
      · rw [hmade, Function.update_of_ne hid]
        exact h3
      · rw [hmade, Function.update_of_ne hid]
        exact h4

theorem stored {s : Searches} (h : Reach step init IsRpn s) : s.AllStored := by
  refine h.invariant (fun s hs id fset hl => ?_) fun s a s' => stored_step
  rw [hs] at hl
  cases hl

/-- A search whose references are all known passes a query on exactly when it does not refer to
the set that it replaces. -/
theorem passed_iff {s : Searches} {req : SearchRequest} {q : RPNQuery} (hs : s.AllStored)
    (ha : s.Allowed req) (hq : req.query.rpn? = some q) (hk : s.Known req q) :
    (∃ query, (prepareSearch s.sets req).2 = .ok query) ↔ req.resultSetName ∉ refs q.rpn := by
  constructor
  · rintro ⟨query, h⟩
    exact ((prepareSearch_eq_ok ha hq).mp h).1.2
  · intro hself
    exact ⟨_, (prepareSearch_eq_ok ha hq).mpr ⟨⟨refers_of_known hs hk, hself⟩, rfl⟩⟩

/-! ### What the queries denote -/

variable {ρ : Type*}

/-- The submitted tree denotes what the client's query does, a reference being the set that the
earlier search produced. -/
theorem labelled_submitted {s : Searches} {req : SearchRequest} {q : RPNQuery}
    (I : List String → Interp ρ) (hs : s.AllStored) (hk : s.Known req q) :
    (I (req.databaseNames.map Util.databaseNameNormalize)).labelled (s.submitted q) =
      (I (req.databaseNames.map Util.databaseNameNormalize)).query (s.produced I) q := by
  rw [Interp.labelled, submitted, Formula.eval_bind, Interp.query]
  refine Formula.eval_congr _ fun op hop => ?_
  cases op with
  | apt attributes term => rfl
  | resultAttr id attributes => rfl
  | resultSetId id =>
    obtain ⟨fset, hl, hm⟩ := hk id (mem_refs.mpr hop)
    obtain ⟨q', h⟩ := hs id fset hl
    have hdb := Util.match_iff.mp hm
    rw [h.databases] at hdb
    rw [← hdb]
    rfl

/-- The stored query read in its own attribute set is the tree of its search. -/
def AllRead (s : Searches) : Prop :=
  ∀ id fset q, s.sets.lookup id = some fset → fset.query.rpn? = some q →
    q.rpn.map (Operand.readIn q.attributeSetId) =
      (s.made id).tree.map fun op => op.2.readIn op.1

theorem readIn_explicit {op : Operand} (h : op.Explicit) (a b : Oid) : op.readIn a = op.readIn b := by
  have hmap : ∀ attributes : List AttributeElement, (∀ e ∈ attributes, e.attributeSet.isSome) →
      (attributes.map fun e => { e with attributeSet := some (e.attributeSet.getD a) }) =
        attributes.map fun e => { e with attributeSet := some (e.attributeSet.getD b) } := by
    intro attributes he
    refine List.map_congr_left fun e hmem => ?_
    obtain ⟨x, hx⟩ := Option.isSome_iff_exists.mp (he e hmem)
    rw [hx]
    rfl
  cases op with
  | apt attributes term => rw [Operand.readIn, Operand.readIn, hmap attributes h]
  | resultSetId id => rfl
  | resultAttr id attributes => rw [Operand.readIn, Operand.readIn, hmap attributes h]

theorem map_readIn_bind {s : Searches} {databases : List String} {q : RPNQuery}
    (hread : s.AllRead) (hr : ∀ id ∈ refs q.rpn, Refers s.sets databases id)
    (hsame : s.SameAttributeSet q) :
    (q.rpn.bind (expand s.sets)).map (Operand.readIn q.attributeSetId) =
      (s.submitted q).map fun op => op.2.readIn op.1 := by
  rw [submitted, Formula.map_bind, Formula.map_bind]
  refine Formula.bind_congr fun op hop => ?_
  cases op with
  | apt attributes term => rfl
  | resultAttr id attributes => rfl
  | resultSetId id =>
    have hid := mem_refs.mpr hop
    obtain ⟨fset, q', hl, -, hq'⟩ := hr id hid
    have hmap := hread id fset q' hl hq'
    rw [expand_of_lookup hl hq', ← hmap]
    rcases hsame id hid fset q' hl hq' with heq | hexp
    · rw [heq]
    · exact Formula.map_congr fun op hop => readIn_explicit (hexp op hop) _ _

theorem read_step {s s' : Searches} {a : Label} (hread : s.AllRead) (hok : IsRpnSame s a)
    (h : step s a = some s') : s'.AllRead := by
  obtain ⟨req, found⟩ := a
  obtain ⟨q, hq⟩ := Option.isSome_iff_exists.mp hok.1
  intro id fset q' hl hq'
  rcases step_cases hq h with ⟨hmade, hsets⟩ | ⟨query, ha, hprep, hsets, hmade⟩
  · have hl' : s.sets.lookup id = some fset := by
      rcases hsets with hsets | hsets
      · rwa [hsets] at hl
      · rw [hsets] at hl
        exact Table.lookup_of_erase hl
    rw [hmade]
    exact hread id fset q' hl' hq'
  · rw [hsets] at hl
    by_cases hid : id = req.resultSetName
    · subst hid
      rw [AList.lookup_insert] at hl
      cases hl
      obtain ⟨⟨hr, -⟩, rfl⟩ := (prepareSearch_eq_ok ha hq).mp hprep
      rw [withRpn_rpn? hq] at hq'
      cases hq'
      rw [hmade, Function.update_self]
      exact map_readIn_bind hread hr (hok.2 q hq)
    · rw [AList.lookup_insert_ne hid] at hl
      rw [hmade, Function.update_of_ne hid]
      exact hread id fset q' (Table.lookup_of_erase hl) hq'

theorem allRead {s : Searches} (h : Reach step init IsRpnSame s) : s.AllRead := by
  refine h.invariant (fun s hs id fset q hl _ => ?_) fun s a s' => read_step
  rw [hs] at hl
  cases hl

/-- The query that a search passes to `get_set` has the submitted tree, and this denotes what the
client's query does. -/
def Expands (I : List String → Interp ρ) (s : Searches) (req : SearchRequest) (q : RPNQuery) :
    Prop :=
  ∃ query p, (prepareSearch s.sets req).2 = .ok query ∧ query.rpn? = some p ∧
    p.attributeSetId = q.attributeSetId ∧ p.rpn = (s.submitted q).map Prod.snd ∧
    (I (req.databaseNames.map Util.databaseNameNormalize)).labelled (s.submitted q) =
      (I (req.databaseNames.map Util.databaseNameNormalize)).query (s.produced I) q

/-- The query that a search passes to `get_set`, read as it is, denotes what the client's query
does. -/
def ExpandsAsPassed (I : List String → Interp ρ) (s : Searches) (req : SearchRequest)
    (q : RPNQuery) : Prop :=
  ∃ query p, (prepareSearch s.sets req).2 = .ok query ∧ query.rpn? = some p ∧
    (I (req.databaseNames.map Util.databaseNameNormalize)).query (fun _ => ∅) p =
      (I (req.databaseNames.map Util.databaseNameNormalize)).query (s.produced I) q

theorem expands_iff {s : Searches} {req : SearchRequest} {q : RPNQuery}
    (I : List String → Interp ρ) (hs : s.AllStored) (ha : s.Allowed req)
    (hq : req.query.rpn? = some q) (hk : s.Known req q) :
    s.Expands I req q ↔ req.resultSetName ∉ refs q.rpn := by
  rw [← passed_iff hs ha hq hk]
  constructor
  · rintro ⟨query, p, h, -⟩
    exact ⟨query, h⟩
  · rintro ⟨query, h⟩
    obtain ⟨⟨hr, -⟩, rfl⟩ := (prepareSearch_eq_ok ha hq).mp h
    exact ⟨_, _, h, withRpn_rpn? hq _, rfl, bind_expand_eq hs hr, labelled_submitted I hs hk⟩

theorem expandsAsPassed_iff {s : Searches} {req : SearchRequest} {q : RPNQuery}
    (I : List String → Interp ρ) (hs : s.AllStored) (hread : s.AllRead) (ha : s.Allowed req)
    (hq : req.query.rpn? = some q) (hk : s.Known req q) (hsame : s.SameAttributeSet q) :
    s.ExpandsAsPassed I req q ↔ req.resultSetName ∉ refs q.rpn := by
  rw [← passed_iff hs ha hq hk]
  constructor
  · rintro ⟨query, p, h, -⟩
    exact ⟨query, h⟩
  · rintro ⟨query, h⟩
    obtain ⟨⟨hr, -⟩, rfl⟩ := (prepareSearch_eq_ok ha hq).mp h
    refine ⟨_, _, h, withRpn_rpn? hq _, ?_⟩
    rw [← labelled_submitted I hs hk, Interp.query, Interp.labelled,
      ← Formula.eval_map _ _ (Operand.readIn _), map_readIn_bind hread hr hsame,
      ← Formula.eval_map _ _ fun op : Oid × Operand => op.2.readIn op.1]

/-- In every run the stored queries are free of references, and a search whose references are all
known expands to its meaning if and only if it does not refer to the set that it replaces. Where
every query has had the attribute set of the queries it refers to, so does the query as passed. -/
theorem references_expand (I : List String → Interp ρ) {s : Searches}
    (h : Reach step init IsRpn s) :
    (∀ id fset, s.sets.lookup id = some fset → fset.query.RefFree) ∧
    (∀ req q, req.query.rpn? = some q → s.Allowed req → s.Known req q →
      (s.Expands I req q ↔ req.resultSetName ∉ refs q.rpn)) ∧
    (Reach step init IsRpnSame s → ∀ req q, req.query.rpn? = some q → s.Allowed req →
      s.Known req q → s.SameAttributeSet q →
        (s.ExpandsAsPassed I req q ↔ req.resultSetName ∉ refs q.rpn)) := by
  have hs := stored h
  refine ⟨fun id fset hl => refFree_of_allStored hs hl, ?_, ?_⟩
  · intro req q hq ha hk
    exact expands_iff I hs ha hq hk
  · intro hsame req q hq ha hk hq'
    exact expandsAsPassed_iff I hs (allRead hsame) ha hq hk hq'

/-! ### Refining a set -/

def noSets : Searches := ⟨∅, fun _ => ⟨[], .leaf ([], .resultSetId "")⟩⟩

def bib1 : Oid := [1, 2, 840, 10003, 3, 1]

def title (term : List UInt8) : RPNStructure := .leaf (.apt [⟨none, 1, .numeric 4⟩] term)

/-- A search for one title into set `1`. -/
def searchTitle : SearchRequest := ⟨"1", true, ["db"], .type1 ⟨bib1, title [120]⟩, none⟩

/-- Set `1` refined by another title. -/
def refined : RPNQuery := ⟨bib1, .node (.leaf (.resultSetId "1")) (title [121]) .and⟩

def refineInto (name : String) : SearchRequest := ⟨name, true, ["DB"], .type1 refined, none⟩

def afterTitle : Searches :=
  ⟨search ∅ searchTitle true,
    Function.update noSets.made "1" ⟨["db"], noSets.submitted ⟨bib1, title [120]⟩⟩⟩

theorem afterTitle_reach : Reach step init IsRpnSame afterTitle := by
  have hstep : step noSets (searchTitle, true) = some afterTitle := rfl
  have hok : IsRpnSame noSets (searchTitle, true) := by
    refine ⟨rfl, fun q hq id hid => ?_⟩
    cases hq
    cases hid
  have hinit : init noSets := rfl
  exact (Reach.start hinit).next hok hstep

theorem afterTitle_known (name : String) : afterTitle.Known (refineInto name) refined := by
  intro id hid
  obtain rfl : id = "1" := by simpa [refs, refined, title, Formula.leaves] using hid
  have hm : Util.match_ ["db"] ["DB"] = true := by decide
  exact ⟨⟨["db"], searchTitle.query⟩, by decide, hm⟩

/-- Records are lists of titles. -/
def titles : Interp (List (List UInt8)) where
  apt _ term := { record | term ∈ record }
  resultAttr _ _ := ∅
  prox _ _ _ := ∅

theorem references_expand_refined :
    afterTitle.Expands (fun _ => titles) (refineInto "2") refined ∧
      afterTitle.ExpandsAsPassed (fun _ => titles) (refineInto "2") refined := by
  have hreach := afterTitle_reach.mono fun _ _ h => h.1
  have ha : afterTitle.Allowed (refineInto "2") := fun _ => rfl
  have hsame : afterTitle.SameAttributeSet refined := by
    intro id hid fset q' hl hq'
    obtain rfl : id = "1" := by simpa [refs, refined, title, Formula.leaves] using hid
    have hl' : afterTitle.sets.lookup "1" = some ⟨["db"], searchTitle.query⟩ := by decide
    rw [hl'] at hl
    cases hl
    cases hq'
    exact .inl rfl
  obtain ⟨-, hexp, hpassed⟩ := references_expand (fun _ => titles) hreach
  exact ⟨(hexp _ _ rfl ha (afterTitle_known "2")).mpr (by decide),
    (hpassed afterTitle_reach _ _ rfl ha (afterTitle_known "2") hsame).mpr (by decide)⟩

/-- `1 := 1 AND x` is rejected: set `1` is erased before the reference to it is looked up. -/
theorem refineItself_rejected :
    ¬ ∀ (I : List String → Interp (List (List UInt8))) s, Reach step init IsRpn s →
      ∀ req q, req.query.rpn? = some q → s.Allowed req → s.Known req q → s.Expands I req q := by
  intro h
  have hreach := afterTitle_reach.mono fun _ _ h => h.1
  obtain ⟨query, p, hok, -⟩ := h (fun _ => titles) afterTitle hreach (refineInto "1") refined rfl
    (fun _ => rfl) (afterTitle_known "1")
  have hrej : (prepareSearch afterTitle.sets (refineInto "1")).2 =
      .error (.specifiedResultSetDoesNotExist, "1") := by
    decide
  rw [hrej] at hok
  cases hok

end Searches

end SessionShared
end Metaproxy
