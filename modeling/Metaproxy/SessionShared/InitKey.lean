import Metaproxy.Util
import Metaproxy.SessionShared.Registry

/-!
# SessionShared.InitKey

`InitKey::operator <` and the ordered map of `Rep::init`. The comparison of two keys is that of
their two encodings, one after the other (`less_iff_compare`), so it is a strict total order, and
the map finds a class under exactly the key it was made for. The whole filter, whose
`m_backend_map` is a plain table, refines the ordered map (`refines_map`).
-/

namespace Metaproxy
namespace SessionShared

open Lib

namespace InitKey

/-- `operator <`. -/
def less (k1 k2 : InitKey) : Bool :=
  let c := Util.memcmp2 k1.idAuthentication k2.idAuthentication
  if c < 0 then true
  else if c > 0 then false
  else
    let c := Util.memcmp2 k1.otherInfo k2.otherInfo
    if c < 0 then true
    else if c > 0 then false
    else false

/-- What a `std::map` knows of two keys: neither is less when it takes them for the same. -/
def order (k1 k2 : InitKey) : Ordering :=
  if less k1 k2 then .lt else if less k2 k1 then .gt else .eq

/-- The encodings, as in a dictionary. -/
def dictionary : InitKey → InitKey → Ordering :=
  compareLex (compareOn (·.idAuthentication)) (compareOn (·.otherInfo))

variable {k1 k2 k3 : InitKey}

theorem less_iff_compare : less k1 k2 = true ↔ dictionary k1 k2 = .lt := by
  simp only [less, dictionary, compareLex, compareOn, Util.memcmp2_compare]
  cases compare k1.idAuthentication k2.idAuthentication with
  | lt => simp
  | gt => simp
  | eq =>
    cases compare k1.otherInfo k2.otherInfo with
    | lt => simp
    | gt => simp
    | eq => simp

instance : Std.TransCmp dictionary :=
  inferInstanceAs (Std.TransCmp (compareLex (compareOn _) (compareOn _)))

theorem dictionary_swap : dictionary k1 k2 = (dictionary k2 k1).swap :=
  Std.OrientedCmp.eq_swap

theorem order_eq : order = dictionary := by
  funext k1 k2
  unfold order
  cases h : dictionary k1 k2 with
  | lt => rw [if_pos (less_iff_compare.mpr h)]
  | eq =>
    have h' : dictionary k2 k1 = .eq := by rw [dictionary_swap, h]; rfl
    rw [if_neg (by rw [less_iff_compare, h]; simp), if_neg (by rw [less_iff_compare, h']; simp)]
  | gt =>
    have h' : dictionary k2 k1 = .lt := by rw [dictionary_swap, h]; rfl
    rw [if_neg (by rw [less_iff_compare, h]; simp), if_pos (less_iff_compare.mpr h')]

instance : Std.TransCmp order := by
  rw [order_eq]
  exact inferInstanceAs (Std.TransCmp dictionary)

instance : Std.LawfulEqCmp order where
  compare_self := Std.ReflCmp.compare_self
  eq_of_compare {k1 k2} h := by
    rw [order_eq, dictionary, compareLex_eq_eq] at h
    obtain ⟨a1, o1⟩ := k1
    obtain ⟨a2, o2⟩ := k2
    have ha : a1 = a2 := Std.LawfulEqOrd.eq_of_compare h.1
    have ho : o1 = o2 := Std.LawfulEqOrd.eq_of_compare h.2
    rw [ha, ho]

theorem less_irrefl (k : InitKey) : less k k = false := by
  cases h : less k k with
  | false => rfl
  | true =>
    have hk := less_iff_compare.mp h
    rw [@Std.ReflCmp.compare_self _ dictionary] at hk
    cases hk

theorem less_trans (h12 : less k1 k2 = true) (h23 : less k2 k3 = true) : less k1 k3 = true := by
  rw [less_iff_compare, ← order_eq] at h12 h23 ⊢
  exact Std.TransCmp.lt_trans h12 h23

theorem less_asymm (h : less k1 k2 = true) : less k2 k1 = false := by
  cases h' : less k2 k1 with
  | false => rfl
  | true =>
    have hk := less_trans h h'
    rw [less_irrefl] at hk
    cases hk

theorem eq_of_not_less (h12 : less k1 k2 = false) (h21 : less k2 k1 = false) : k1 = k2 := by
  refine @Std.LawfulEqCmp.eq_of_compare _ order _ _ _ ?_
  simp [order, h12, h21]

end InitKey

/-! ## The ordered map -/

/-- `m_backend_map`, with the key of every init and the class it was given. -/
structure MapSt where
  backendMap : Std.TreeMap InitKey Nat InitKey.order
  made : Nat
  given : List (InitKey × Nat)

inductive MapLabel where
  /-- `Rep::init` for a request with this key. -/
  | init (key : InitKey)
  /-- `expire_classes` erases the entry. -/
  | erase (key : InitKey)
deriving DecidableEq, Repr

namespace MapSt

/-- The class that `Rep::init` finds or makes. -/
def classFor (m : MapSt) (key : InitKey) : Nat := m.backendMap[key]?.getD m.made

def init (m : MapSt) (key : InitKey) : MapSt :=
  match m.backendMap[key]? with
  | none => ⟨m.backendMap.insert key m.made, m.made + 1, (key, m.made) :: m.given⟩
  | some c => { m with given := (key, c) :: m.given }

def step (m : MapSt) : MapLabel → Option MapSt
  | .init key => some (m.init key)
  | .erase key =>
    if m.backendMap[key]?.isSome then some { m with backendMap := m.backendMap.erase key }
    else none

def start : MapSt := ⟨∅, 0, []⟩

def Reachable (m : MapSt) : Prop := Reach step (· = start) Any m

variable {m m' : MapSt} {key k k' : InitKey} {c : Nat}

theorem getElem_insert (k : InitKey) :
    (m.backendMap.insert key c)[k]? = if key = k then some c else m.backendMap[k]? := by
  rw [Std.TreeMap.getElem?_insert]
  simp only [Std.LawfulEqCmp.compare_eq_iff_eq]

theorem getElem_erase (k : InitKey) :
    (m.backendMap.erase key)[k]? = if key = k then none else m.backendMap[k]? := by
  rw [Std.TreeMap.getElem?_erase]
  simp only [Std.LawfulEqCmp.compare_eq_iff_eq]

theorem init_found (h : m.backendMap[key]? = some c) :
    m.init key = { m with given := (key, c) :: m.given } := by
  simp only [init, h]

theorem init_missing (h : m.backendMap[key]? = none) :
    m.init key = ⟨m.backendMap.insert key m.made, m.made + 1, (key, m.made) :: m.given⟩ := by
  simp only [init, h]

/-- After an init its class is in the map. -/
theorem init_getElem : (m.init key).backendMap[key]? = some (m.classFor key) := by
  cases h : m.backendMap[key]? with
  | none =>
    rw [init_missing h, getElem_insert, if_pos rfl, classFor, h]
    rfl
  | some c =>
    have hclass : m.classFor key = c := by
      rw [classFor, h]
      rfl
    rw [init_found h, hclass]
    exact h

/-- No class was given under two keys, and the map holds classes under the key they were given
for. -/
structure Keyed (m : MapSt) : Prop where
  given : ∀ k k' c, (k, c) ∈ m.given → (k', c) ∈ m.given → k = k'
  below : ∀ k c, (k, c) ∈ m.given → c < m.made
  map : ∀ k c, m.backendMap[k]? = some c → (k, c) ∈ m.given

theorem keyed_start : Keyed start where
  given k k' c h := by cases h
  below k c h := by cases h
  map k c h := by simp [start] at h

theorem keyed_init (h : Keyed m) (key : InitKey) : Keyed (m.init key) := by
  cases hkey : m.backendMap[key]? with
  | some c =>
    have hgiven := h.map key c hkey
    have hsub : ∀ e ∈ (key, c) :: m.given, e ∈ m.given := by
      intro e he
      rcases List.mem_cons.mp he with rfl | he
      · exact hgiven
      · exact he
    rw [init_found hkey]
    exact
      { given := fun k k' c hk hk' => h.given k k' c (hsub _ hk) (hsub _ hk')
        below := fun k c hk => h.below k c (hsub _ hk)
        map := fun k c hk => List.mem_cons_of_mem _ (h.map k c hk) }
  | none =>
    rw [init_missing hkey]
    refine ⟨?_, ?_, ?_⟩
    · intro k k' c hk hk'
      rcases List.mem_cons.mp hk with heq | hk <;> rcases List.mem_cons.mp hk' with heq' | hk'
      · cases heq
        cases heq'
        rfl
      · cases heq
        exact absurd (h.below k' _ hk') (Nat.lt_irrefl _)
      · cases heq'
        exact absurd (h.below k _ hk) (Nat.lt_irrefl _)
      · exact h.given k k' c hk hk'
    · intro k c hk
      rcases List.mem_cons.mp hk with heq | hk
      · cases heq
        exact Nat.lt_succ_self _
      · exact Nat.lt_succ_of_lt (h.below k c hk)
    · intro k c hk
      rw [getElem_insert] at hk
      split at hk
      · rename_i heq
        cases heq
        cases hk
        exact List.mem_cons_self
      · exact List.mem_cons_of_mem _ (h.map k c hk)

theorem keyed_erase (h : Keyed m) (key : InitKey) :
    Keyed { m with backendMap := m.backendMap.erase key } where
  given := h.given
  below := h.below
  map k c hk := by
    rw [getElem_erase] at hk
    split at hk
    · cases hk
    · exact h.map k c hk

theorem keyed_step {l : MapLabel} (h : Keyed m) (hs : m.step l = some m') : Keyed m' := by
  cases l with
  | init key =>
    cases hs
    exact keyed_init h key
  | erase key =>
    simp only [step] at hs
    split at hs
    · cases hs
      exact keyed_erase h key
    · cases hs

theorem keyed_reachable (h : Reachable m) : Keyed m :=
  h.invariant (fun _ hstart => hstart ▸ keyed_start) fun _ _ _ hk _ hs => keyed_step hk hs

/-- A class stays under its key as long as that key is not erased. -/
theorem step_keeps {l : MapLabel} (hl : l ≠ .erase key) (hs : m.step l = some m')
    (hkey : m.backendMap[key]? = some c) : m'.backendMap[key]? = some c := by
  cases l with
  | init k =>
    cases hs
    cases hk : m.backendMap[k]? with
    | some d =>
      rw [init_found hk]
      exact hkey
    | none =>
      rw [init_missing hk, getElem_insert, if_neg]
      · exact hkey
      · rintro rfl
        rw [hk] at hkey
        cases hkey
  | erase k =>
    simp only [step] at hs
    split at hs
    · cases hs
      rw [getElem_erase, if_neg fun heq => hl (congrArg _ heq)]
      exact hkey
    · cases hs

theorem run_keeps {ls : List MapLabel} (hls : .erase key ∉ ls) (hr : run step m ls = some m')
    (hkey : m.backendMap[key]? = some c) : m'.backendMap[key]? = some c := by
  induction ls generalizing m with
  | nil =>
    cases hr
    exact hkey
  | cons l ls ih =>
    obtain ⟨m1, h1, hr⟩ := Option.bind_eq_some_iff.mp hr
    rw [List.mem_cons, not_or] at hls
    exact ih hls.2 hr (step_keeps (Ne.symm hls.1) h1 hkey)

end MapSt

/-- `operator <` is a strict total order whose equality is that of both encodings. In every run of
inits and erasures, two inits are given the same class only when their keys are equal, and a later
init with the same key is given the same class as long as it was not erased. -/
theorem initKey_separates :
    (∀ k : InitKey, k.less k = false) ∧
    (∀ k1 k2 k3 : InitKey, k1.less k2 = true → k2.less k3 = true → k1.less k3 = true) ∧
    (∀ k1 k2 : InitKey,
      (k1.less k2 = true ∧ k1 ≠ k2 ∧ k2.less k1 = false) ∨
      (k1.less k2 = false ∧ k1 = k2 ∧ k2.less k1 = false) ∨
      (k1.less k2 = false ∧ k1 ≠ k2 ∧ k2.less k1 = true)) ∧
    (∀ k1 k2 : InitKey, (k1.less k2 = false ∧ k2.less k1 = false) ↔
      k1.idAuthentication = k2.idAuthentication ∧ k1.otherInfo = k2.otherInfo) ∧
    (∀ m : MapSt, m.Reachable → ∀ k1 k2 c, (k1, c) ∈ m.given → (k2, c) ∈ m.given →
      k1.idAuthentication = k2.idAuthentication ∧ k1.otherInfo = k2.otherInfo) ∧
    (∀ (m m' : MapSt) (key : InitKey) (ls : List MapLabel), .erase key ∉ ls →
      run MapSt.step (m.init key) ls = some m' → m'.classFor key = m.classFor key) := by
  refine ⟨InitKey.less_irrefl, fun _ _ _ => InitKey.less_trans, ?_, ?_, ?_, ?_⟩
  · intro k1 k2
    by_cases h12 : k1.less k2 = true
    · refine .inl ⟨h12, ?_, InitKey.less_asymm h12⟩
      rintro rfl
      rw [InitKey.less_irrefl] at h12
      cases h12
    · have h12 : k1.less k2 = false := by simpa using h12
      by_cases h21 : k2.less k1 = true
      · refine .inr (.inr ⟨h12, ?_, h21⟩)
        rintro rfl
        rw [h12] at h21
        cases h21
      · have h21 : k2.less k1 = false := by simpa using h21
        exact .inr (.inl ⟨h12, InitKey.eq_of_not_less h12 h21, h21⟩)
  · intro k1 k2
    constructor
    · rintro ⟨h12, h21⟩
      cases InitKey.eq_of_not_less h12 h21
      exact ⟨rfl, rfl⟩
    · intro h
      have hk : k1 = k2 := by
        obtain ⟨a1, o1⟩ := k1
        obtain ⟨a2, o2⟩ := k2
        exact congrArg₂ InitKey.mk h.1 h.2
      cases hk
      exact ⟨InitKey.less_irrefl k1, InitKey.less_irrefl k1⟩
  · intro m hm k1 k2 c h1 h2
    cases (MapSt.keyed_reachable hm).given k1 k2 c h1 h2
    exact ⟨rfl, rfl⟩
  · intro m m' key ls hls hr
    have hkey := MapSt.run_keeps hls hr MapSt.init_getElem
    rw [MapSt.classFor, hkey]
    rfl

/-! ## The whole filter -/

/-- The table of the filter holds what the ordered map holds, and its frontends have classes that
were given to them. -/
structure Agrees (m : MapSt) (s : St) : Prop where
  lookup : ∀ k, m.backendMap[k]? = s.backendMap.lookup k
  made : m.made = s.made
  given : ∀ client f, (s.threads client).frontend = some f → (f.key, f.backendClass) ∈ m.given

variable {cfg : Config} {s s' : St} {m : MapSt} {client : Client}

theorem agrees_start (h : init s) : Agrees MapSt.start s where
  lookup k := by
    rw [h.1]
    simp [MapSt.start]
  made := h.2.1.symm
  given client f hf := by
    rw [h.2.2.1 client] at hf
    cases hf

theorem agrees_request (h : Agrees m s) (hm : m.Reachable) (hs : Requested s s' client) :
    ∃ m', m'.Reachable ∧ Agrees m' s' := by
  -- a frontend of `s'` keeps its class or has the one of the map
  have hgiven {m' : MapSt} {th : Thread} (hkeyed : m'.Keyed) (hst : Started s s' client th)
      (hlookup : ∀ k, m'.backendMap[k]? = s'.backendMap.lookup k)
      (hold : ∀ e ∈ m.given, e ∈ m'.given) (client' : Client) (f' : Frontend)
      (hf' : (s'.threads client').frontend = some f') :
      (f'.key, f'.backendClass) ∈ m'.given := by
    rcases hst.frontends client' f' hf' with ⟨f, hf, hclass, hkey⟩ | hmap
    · rw [hclass, hkey]
      exact hold _ (h.given client' f hf)
    · exact hkeyed.map _ _ ((hlookup _).trans hmap)
  cases hs with
  | ignored heq => exact ⟨m, hm, heq ▸ h⟩
  | started th heq hst =>
    have hmap : s'.backendMap = s.backendMap := by rw [heq]; rfl
    have hlookup : ∀ k, m.backendMap[k]? = s'.backendMap.lookup k := hmap ▸ h.lookup
    refine ⟨m, hm, hlookup, ?_, hgiven (MapSt.keyed_reachable hm) hst hlookup fun _ he => he⟩
    rw [h.made, heq]
    rfl
  | newClass th key hst _ hnone hmap _ hmade =>
    have hnone' : m.backendMap[key]? = none := (h.lookup key).trans hnone
    have hreach : (m.init key).Reachable := Reach.next (e := .init key) hm trivial rfl
    have hkeyed := MapSt.keyed_reachable hreach
    rw [MapSt.init_missing hnone'] at hreach hkeyed
    have hlookup (k : InitKey) :
        (m.backendMap.insert key m.made)[k]? = s'.backendMap.lookup k := by
      rw [MapSt.getElem_insert, hmap]
      by_cases hk : key = k
      · subst hk
        rw [if_pos rfl, AList.lookup_insert, h.made]
      · rw [if_neg hk, AList.lookup_insert_ne (Ne.symm hk)]
        exact h.lookup k
    refine ⟨_, hreach, hlookup, ?_, ?_⟩
    · rw [hmade, h.made]
    · exact hgiven hkeyed hst hlookup fun _ he => List.mem_cons_of_mem _ he

theorem agrees_worker (h : Agrees m s) (hm : m.Reachable) (hs : stepWorker cfg s = some s') :
    ∃ m', m'.Reachable ∧ Agrees m' s' := by
  have hframe := stepWorker_frame hs
  have hgiven : ∀ client f, (s'.threads client).frontend = some f →
      (f.key, f.backendClass) ∈ m.given := hframe.threads ▸ h.given
  have hmade : m.made = s'.made := h.made.trans hframe.made.symm
  unfold stepWorker at hs
  split at hs
  case h_1 =>
    cases hs
    exact ⟨m, hm, h.lookup, hmade, hgiven⟩
  case h_2 =>
    split at hs <;> cases hs <;> exact ⟨m, hm, h.lookup, hmade, hgiven⟩
  case h_3 =>
    obtain ⟨e, -, rfl⟩ := Option.map_eq_some_iff.mp hs
    exact ⟨m, hm, h.lookup, hmade, hgiven⟩
  case h_4 n _ =>
    obtain ⟨⟨k, c⟩, he, rfl⟩ := Option.map_eq_some_iff.mp hs
    have hk : m.backendMap[k]? = some c := (h.lookup k).trans (Table.lookup_of_getElem he)
    refine ⟨{ m with backendMap := m.backendMap.erase k }, ?_, ?_, hmade, hgiven⟩
    · refine hm.next (e := .erase k) trivial ?_
      simp only [MapSt.step, hk, Option.isSome_some, if_true]
    · intro k'
      rw [MapSt.getElem_erase]
      by_cases hk' : k = k'
      · subst hk'
        rw [if_pos rfl, AList.lookup_erase]
      · rw [if_neg hk', AList.lookup_erase_ne (Ne.symm hk')]
        exact h.lookup k'

theorem agrees_step {e : Label} (h : Agrees m s) (hm : m.Reachable)
    (hs : step cfg s e = some s') : ∃ m', m'.Reachable ∧ Agrees m' s' := by
  cases e with
  | clock now =>
    cases hs
    exact ⟨m, hm, h.lookup, h.made, h.given⟩
  | request client r => exact agrees_request h hm (startRequest_requested hs)
  | worker => exact agrees_worker h hm hs
  | thread client o =>
    obtain ⟨f, a, hts⟩ := stepThread_spec hs
    refine ⟨m, hm, ?_, ?_, ?_⟩
    · rw [hts.state]
      exact h.lookup
    · rw [hts.state]
      exact h.made
    · intro client' f' hf'
      obtain ⟨f0, hf0, hclass, hkey⟩ := stepThread_frontend hts hf'
      rw [hclass, hkey]
      exact h.given client' f0 hf0

/-- What the filter does to its table of classes, the ordered map does. -/
theorem refines_map (h : Reach (step cfg) init Any s) : ∃ m, MapSt.Reachable m ∧ Agrees m s := by
  induction h with
  | start hs => exact ⟨_, .start rfl, agrees_start hs⟩
  | next _ _ hs ih =>
    obtain ⟨m, hm, hagrees⟩ := ih
    exact agrees_step hagrees hm hs

end SessionShared
end Metaproxy
