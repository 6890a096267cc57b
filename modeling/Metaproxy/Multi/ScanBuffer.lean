import Metaproxy.Multi.Served

/-!
# Multi.ScanBuffer

`Frontend::scan` with its indexes. The entries of a backend are read one at a time, and what is
assigned to the entries of the response is listed with the index it is assigned to. Positions are of
type `int` and wrap around.

* `mergeFrom_eq` — the loops over the entries of a backend read below their number.
* `fillDown_indexes`, `fillUp_indexes` — the indexes that are assigned.
* `scan_inside_iff` — when a scan stays inside its buffer.
* `gatherInt_eq`, `scan_of_inside` — for values in the range of `int`, the merge is the one of
  `gather`, and a scan that stays inside its buffer is one that `scan` answers.
-/

namespace Metaproxy
namespace Multi

/-- `entries[i]`. -/
def entryAt (entries : List Entry) (i : Int) : Option Entry :=
  if 0 ≤ i then entries[i.toNat]? else none

/-- Both loops over the entries of a backend: from `i` on, below `limit` and the number of entries.
`none` where an entry is read that is not there. -/
def mergeFrom (lt : Term → Term → Prop) [DecidableRel lt] (limit : Int) (entries : List Entry)
    (i : Int) (l : List ScanTermInfo) : Option (List ScanTermInfo) :=
  if i < limit ∧ i < entries.length then
    (entryAt entries i).bind fun ent =>
      mergeFrom lt limit entries (i + 1) (insertEntry lt l ent)
  else some l
termination_by (entries.length - i).toNat
decreasing_by omega

/-- The position of the start term in a response. -/
def positionIn (req : ScanRequest) (res : ScanResponse) : Int :=
  Util.toInt (res.positionOfTerm.getD (req.preferredPositionInResponse.getD 1))

def firstAfter (position : Int) : Int :=
  if position ≤ 0 then 0 else Util.toInt (position - 1)

def mergeEntries (position : Int) (entries : List Entry) (g : Gathered) : Option Gathered :=
  (mergeFrom (· > ·) (Util.toInt (position - 1)) entries 0 g.before).bind fun before =>
    (mergeFrom (· < ·) entries.length entries (firstAfter position) g.after).map fun after =>
      ⟨g.closed, before, after⟩

/-- The loop over the backends, with the accesses to their entries. -/
def gatherInt (req : ScanRequest) :
    List BackendResult → Gathered → Option (Except (Bool × Response) Gathered)
  | [], g => some (.ok g)
  | b :: backends, g =>
    let closed := g.closed || b.closed
    match b.response with
    | .scan res =>
      match res.entries.bind ListEntries.nonsurrogateDiagnostics with
      | some diagnostics =>
        some (.error (closed, .scan ⟨.failure, 0, none, some ⟨none, some diagnostics⟩⟩))
      | none =>
        match res.entries.bind ListEntries.entries with
        | some entries =>
          (mergeEntries (positionIn req res) entries ⟨closed, g.before, g.after⟩).bind
            (gatherInt req backends)
        | none => gatherInt req backends ⟨closed, g.before, g.after⟩
    | response => some (.error (closed, response))

/-- The response in the making: what is assigned to which of its entries. -/
structure Build where
  numEntries : Int
  positionOfTerm : Int
  assigned : List (Int × Entry)

/-- The position of the start term when there are `lbefore` terms before it. -/
def clampPosition (lbefore position : Int) : Int :=
  if lbefore < Util.toInt (position - 1) then lbefore + 1 else position

def fillDown (position : Int) : List ScanTermInfo → Int → List (Int × Entry)
  | [], _ => []
  | it :: rest, i =>
    if i < Util.toInt (position - 1) then
      (Util.toInt (position - 2 - i), it.getEntry) :: fillDown position rest (i + 1)
    else []

def fillUp (number : Int) : List ScanTermInfo → Int → Int × List (Int × Entry)
  | [], i => (i, [])
  | it :: rest, i =>
    if i < number then
      let filled := fillUp number rest (i + 1)
      (filled.1, (i, it.getEntry) :: filled.2)
    else (i, [])

/-- `none` when the preferred position is absent and is read all the same. -/
def build (req : ScanRequest) (before after : List ScanTermInfo) : Option Build :=
  req.preferredPositionInResponse.map fun preferred =>
    let position := clampPosition (Util.toInt before.length) (Util.toInt preferred)
    let filled := fillUp (Util.toInt req.numberOfTermsRequested) after (firstAfter position)
    ⟨filled.1, position, fillDown position before 0 ++ filled.2⟩

inductive ScanRun where
  | passedOn (closed : Bool) (response : Response)
  | built (closed : Bool) (b : Build)
  | undefined

def scanInt (req : ScanRequest) (backends : List BackendResult) : ScanRun :=
  match gatherInt req backends ⟨false, [], []⟩ with
  | none => .undefined
  | some (.error r) => .passedOn r.1 r.2
  | some (.ok g) =>
    match build req g.before g.after with
    | none => .undefined
    | some b => .built g.closed b

/-! ## Reading -/

theorem mergeFrom_eq (lt : Term → Term → Prop) [DecidableRel lt] (limit : Int)
    (entries : List Entry) (i : Int) (l : List ScanTermInfo) (hi : 0 ≤ i) :
    mergeFrom lt limit entries i l =
      some (((entries.take limit.toNat).drop i.toNat).foldl (insertEntry lt) l) := by
  fun_induction mergeFrom lt limit entries i l with
  | case1 i l h ih =>
    have hlen : i.toNat < entries.length := by omega
    have hat : entryAt entries i = some entries[i.toNat] := by
      rw [entryAt, if_pos hi, List.getElem?_eq_getElem hlen]
    have htake : i.toNat < (entries.take limit.toNat).length := by
      rw [List.length_take]
      omega
    have hnext : (i + 1).toNat = i.toNat + 1 := by omega
    rw [hat, Option.bind_some, ih _ (by omega), List.drop_eq_getElem_cons htake, List.foldl_cons,
      List.getElem_take, hnext]
  | case2 i l h =>
    rw [List.drop_eq_nil_of_le, List.foldl_nil]
    rw [List.length_take]
    omega

theorem firstAfter_nonneg {position : Int} (h : position ≤ 2147483647) :
    0 ≤ firstAfter position := by
  unfold firstAfter
  split_ifs with hpos
  · exact le_refl 0
  · rw [Util.toInt_eq (by omega) (by omega)]
    omega

theorem toInt_le (x : Int) : Util.toInt x ≤ 2147483647 := Int.le_of_lt_add_one (Util.toInt_lt x)

/-- The entries of a response that are before the start term. -/
def lowerEntries (position : Int) (entries : List Entry) : List Entry :=
  entries.take (Util.toInt (position - 1)).toNat

def upperEntries (position : Int) (entries : List Entry) : List Entry :=
  entries.drop (firstAfter position).toNat

theorem mergeEntries_eq (req : ScanRequest) (res : ScanResponse) (entries : List Entry)
    (g : Gathered) :
    mergeEntries (positionIn req res) entries g = some ⟨g.closed,
      insertBefore g.before (lowerEntries (positionIn req res) entries),
      insertAfter g.after (upperEntries (positionIn req res) entries)⟩ := by
  have hposition : positionIn req res ≤ 2147483647 := toInt_le _
  rw [mergeEntries, mergeFrom_eq _ _ _ _ _ le_rfl, Option.bind_some,
    mergeFrom_eq _ _ _ _ _ (firstAfter_nonneg hposition), Option.map_some]
  simp only [Int.toNat_natCast, List.take_length, Int.toNat_zero, List.drop_zero]
  rfl

/-! ## Assigning -/

section Fill

variable {position : Int}

theorem fillDown_indexes (l : List ScanTermInfo) {k : Nat} (hk : k ≤ l.length) {i : Int}
    (hi : 0 ≤ i) (hik : i + k = Util.toInt (position - 1)) :
    (fillDown position l i).map Prod.fst = (List.range k).reverse.map Int.ofNat := by
  induction l generalizing k i with
  | nil =>
    obtain rfl : k = 0 := by simpa using hk
    rfl
  | cons it rest ih =>
    cases k with
    | zero => rw [fillDown, if_neg (by omega), List.range_zero, List.reverse_nil]; rfl
    | succ k =>
      have hindex : Util.toInt (position - 2 - i) = k := by
        unfold Util.toInt at hik ⊢
        rw [Int.bmod_def] at hik ⊢
        omega
      rw [fillDown, if_pos (by omega), List.map_cons, hindex,
        ih (by simpa using hk) (by omega) (by push_cast at hik; omega), List.range_succ,
        List.reverse_append]
      rfl

theorem fillDown_of_le (h : Util.toInt (position - 1) ≤ 0) (l : List ScanTermInfo) :
    fillDown position l 0 = [] := by
  cases l with
  | nil => rfl
  | cons it rest => rw [fillDown, if_neg (by omega)]

theorem fillUp_indexes (number : Int) (l : List ScanTermInfo) (i : Int) :
    (fillUp number l i).1 = i + min l.length (number - i).toNat ∧
    (fillUp number l i).2.map Prod.fst =
      (List.range (min l.length (number - i).toNat)).map fun (k : Nat) => i + k := by
  induction l generalizing i with
  | nil => simp [fillUp]
  | cons it rest ih =>
    rw [fillUp]
    split_ifs with h
    · obtain ⟨hend, hindexes⟩ := ih (i + 1)
      have hmin : min (it :: rest).length (number - i).toNat =
          min rest.length (number - (i + 1)).toNat + 1 := by
        rw [List.length_cons]
        omega
      simp only [hend, hindexes, hmin, List.map_cons, List.range_succ_eq_map, List.map_map]
      refine ⟨by push_cast; omega, ?_⟩
      rw [Int.natCast_zero, Int.add_zero]
      congr 1
      refine List.map_congr_left fun k _ => ?_
      simp only [Function.comp_apply, Nat.succ_eq_add_one]
      push_cast
      omega
    · have hzero : (number - i).toNat = 0 := by omega
      simp [hzero]

end Fill

/-! ## The terms of the responses -/

def termOf : Entry → Option Term
  | .termInfo t => if (t.term.getD []).length ≠ 0 then some (t.term.getD []) else none
  | .surrogateDiagnostic _ => none

/-- `l` has the terms of a finite set, each once, in the order `lt`. -/
structure Keys (lt : Term → Term → Prop) (l : List ScanTermInfo) (terms : Finset Term) :
    Prop where
  sorted : (l.map ScanTermInfo.normTerm).Pairwise lt
  mem : ∀ t, t ∈ l.map ScanTermInfo.normTerm ↔ t ∈ terms

section Keys

variable {lt : Term → Term → Prop} {l : List ScanTermInfo} {terms : Finset Term}

theorem keys_nil : Keys lt [] ∅ := ⟨.nil, by simp⟩

theorem Keys.length_eq [Std.Irrefl lt] (h : Keys lt l terms) : l.length = terms.card := by
  have hset : terms = (l.map ScanTermInfo.normTerm).toFinset := by
    ext t
    rw [List.mem_toFinset, h.mem]
  rw [hset, List.toFinset_card_of_nodup h.sorted.nodup, List.length_map]

theorem Keys.eq_nil_iff (h : Keys lt l terms) : l = [] ↔ terms = ∅ := by
  rw [Finset.eq_empty_iff_forall_notMem]
  constructor
  · rintro rfl t ht
    cases (h.mem t).mpr ht
  · intro hempty
    cases l with
    | nil => rfl
    | cons it rest => exact absurd ((h.mem it.normTerm).mp (by simp)) (hempty _)

variable [DecidableRel lt] [IsStrictTotalOrder Term lt]

theorem Keys.insertEntry (h : Keys lt l terms) (ent : Entry) :
    Keys lt (insertEntry lt l ent) (terms ∪ (termOf ent).toFinset) := by
  cases ent with
  | surrogateDiagnostic encoding => simpa [Multi.insertEntry, termOf] using h
  | termInfo t =>
    by_cases hlen : (t.term.getD []).length ≠ 0
    · have hinsert : Multi.insertEntry lt l (.termInfo t) =
          insertTerm lt (ScanTermInfo.ofTermInfo t) l := if_pos hlen
      rw [hinsert, termOf, if_pos hlen]
      refine ⟨sorted_insertTerm lt _ h.sorted, fun t' => ?_⟩
      rw [mem_insertTerm, h.mem, Finset.mem_union, Option.mem_toFinset, Option.mem_some_iff]
      exact ⟨fun h' => h'.symm.imp_right Eq.symm, fun h' => h'.symm.imp_left Eq.symm⟩
    · have hinsert : Multi.insertEntry lt l (.termInfo t) = l := if_neg hlen
      rw [hinsert, termOf, if_neg hlen]
      simpa using h

theorem Keys.insertEntries (h : Keys lt l terms) (entries : List Entry) :
    Keys lt (entries.foldl (Multi.insertEntry lt) l)
      (terms ∪ (entries.filterMap termOf).toFinset) := by
  induction entries generalizing l terms with
  | nil => simpa using h
  | cons ent entries ih =>
    have hnext := ih (h.insertEntry ent)
    rw [List.foldl_cons]
    have hset : terms ∪ ((ent :: entries).filterMap termOf).toFinset =
        terms ∪ (termOf ent).toFinset ∪ (entries.filterMap termOf).toFinset := by
      rw [Finset.union_assoc]
      cases hent : termOf ent with
      | none => simp [hent]
      | some t => simp [hent, List.filterMap_cons_some]
    rw [hset]
    exact hnext

end Keys

/-- What the loop over the backends passes on at once. -/
def BackendResult.endsScan (b : BackendResult) : Bool :=
  match b.response with
  | .scan res => (scanDiagnostics res).isSome
  | _ => true

/-- The terms of a backend in the part of its entries that `part` takes, given the position. -/
def BackendResult.terms (part : Int → List Entry → List Entry) (req : ScanRequest)
    (b : BackendResult) : List Term :=
  match b.response with
  | .scan res =>
    (part (positionIn req res) ((res.entries.bind ListEntries.entries).getD [])).filterMap termOf
  | _ => []

/-- The different terms that the backends have before the start term. -/
def lowerTerms (req : ScanRequest) (backends : List BackendResult) : Finset Term :=
  (backends.flatMap (BackendResult.terms lowerEntries req)).toFinset

def upperTerms (req : ScanRequest) (backends : List BackendResult) : Finset Term :=
  (backends.flatMap (BackendResult.terms upperEntries req)).toFinset

theorem gatherInt_ends (req : ScanRequest) {backends : List BackendResult} {b : BackendResult}
    (hb : b ∈ backends) (hends : b.endsScan = true) (g : Gathered) :
    ∃ r, gatherInt req backends g = some (.error r) := by
  induction backends generalizing g with
  | nil => cases hb
  | cons b' backends ih =>
    rw [gatherInt]
    split
    · next res hres =>
      split
      · exact ⟨_, rfl⟩
      · next hdiag =>
        have hrest : b ∈ backends := by
          rcases List.mem_cons.mp hb with rfl | hb
          · simp [BackendResult.endsScan, hres, scanDiagnostics, hdiag] at hends
          · exact hb
        split
        · rw [mergeEntries_eq, Option.bind_some]
          exact ih hrest _
        · exact ih hrest _
    · exact ⟨_, rfl⟩

theorem gatherInt_ok (req : ScanRequest) {backends : List BackendResult}
    (hends : ∀ b ∈ backends, b.endsScan = false) {g : Gathered} {before after : Finset Term}
    (hbefore : Keys (· > ·) g.before before) (hafter : Keys (· < ·) g.after after) :
    ∃ g', gatherInt req backends g = some (.ok g') ∧
      Keys (· > ·) g'.before (before ∪ lowerTerms req backends) ∧
      Keys (· < ·) g'.after (after ∪ upperTerms req backends) := by
  induction backends generalizing g before after with
  | nil => exact ⟨g, rfl, by simpa [lowerTerms] using hbefore, by simpa [upperTerms] using hafter⟩
  | cons b backends ih =>
    have hb := hends b List.mem_cons_self
    have hrest : ∀ b' ∈ backends, b'.endsScan = false := fun b' hb' =>
      hends b' (List.mem_cons_of_mem b hb')
    simp only [lowerTerms, upperTerms, List.flatMap_cons, List.toFinset_append,
      ← Finset.union_assoc]
    unfold BackendResult.endsScan at hb
    rw [gatherInt]
    split at hb
    · next res hres =>
      have hdiag : res.entries.bind ListEntries.nonsurrogateDiagnostics = none := by
        simpa [scanDiagnostics] using hb
      simp only [hres, hdiag, BackendResult.terms]
      cases hentries : res.entries.bind ListEntries.entries with
      | some entries =>
        simp only [mergeEntries_eq, Option.bind_some, Option.getD_some]
        exact ih hrest (hbefore.insertEntries _) (hafter.insertEntries _)
      | none =>
        simp only [Option.getD_none, lowerEntries, upperEntries, List.take_nil, List.drop_nil,
          List.filterMap_nil, List.toFinset_nil, Finset.union_empty]
        exact ih hrest hbefore hafter
    · cases hb

/-! ## Inside the buffer -/

/-- The number of entries that `odr_malloc` is asked for; its argument is a `size_t`, a pointer has
eight octets. -/
def allocated (number : Int) : Int := 8 * number % 18446744073709551616 / 8

structure InBuffer (req : ScanRequest) (b : Build) : Prop where
  requested : ∀ w ∈ b.assigned, 0 ≤ w.1 ∧ w.1 < req.numberOfTermsRequested
  allocated : ∀ w ∈ b.assigned, w.1 < allocated (Util.toInt req.numberOfTermsRequested)
  once : ∀ k, 0 ≤ k → k < b.numEntries → (b.assigned.map Prod.fst).count k = 1

/-- Nothing absent and nothing outside is read, and what is built stays in its buffer. -/
def ScanRun.Inside (req : ScanRequest) : ScanRun → Prop
  | .passedOn _ _ => True
  | .built _ b => InBuffer req b
  | .undefined => False

/-- The entries before the start term fit. The second condition is about a position of `-2^31` with
`2^31 - 1` terms before it: the entries before and from the start term on then overlap. -/
def HasRoom (req : ScanRequest) (preferred : Int) (lower upper : Finset Term) : Prop :=
  let position := clampPosition (Util.toInt lower.card) (Util.toInt preferred)
  let number := Util.toInt req.numberOfTermsRequested
  Util.toInt (position - 1) ≤ allocated number ∧
    (position ≤ 0 → 0 < Util.toInt (position - 1) → number ≤ 0 ∨ upper = ∅)

instance (req : ScanRequest) (preferred : Int) (lower upper : Finset Term) :
    Decidable (HasRoom req preferred lower upper) :=
  inferInstanceAs (Decidable (_ ∧ (_ → _ → _ ∨ _)))

theorem allocated_of_nonneg {number : Int} (hlo : 0 ≤ number) (hhi : number ≤ 2147483647) :
    allocated number = number := by
  unfold allocated
  omega

theorem allocated_nonneg (number : Int) : 0 ≤ allocated number := by
  unfold allocated
  omega

theorem toInt_le_self {x : Int} (h : 0 ≤ x) : Util.toInt x ≤ x := by
  unfold Util.toInt
  rw [Int.bmod_def]
  omega

/-- A number that is negative as an `int` is a large one. -/
theorem lt_of_toInt_neg {x k : Int} (h : 0 ≤ x) (hneg : Util.toInt x < 0) (hk : k ≤ 2147483647) :
    k < x := by
  unfold Util.toInt at hneg
  rw [Int.bmod_def] at hneg
  omega

/-- There are enough terms for the entries before the start term. -/
theorem clampPosition_le (lbefore : Nat) (preferred : Int) :
    Util.toInt (clampPosition (Util.toInt lbefore) preferred - 1) ≤ lbefore := by
  have hle : Util.toInt lbefore ≤ lbefore := toInt_le_self (by omega)
  have hlo := Util.le_toInt lbefore
  have hhi := toInt_le (preferred - 1)
  unfold clampPosition
  split_ifs with h
  · rw [Int.add_sub_cancel, Util.toInt_eq (by omega) (by omega)]
    exact hle
  · omega

theorem clampPosition_le_int (lbefore : Int) {position : Int} (h : position ≤ 2147483647) :
    clampPosition lbefore position ≤ 2147483647 := by
  have := toInt_le (position - 1)
  unfold clampPosition
  split_ifs <;> omega

section InBuffer

variable {req : ScanRequest} {preferred : Int} {before after : List ScanTermInfo}

theorem count_range_map (s : Int) (n : Nat) (k : Int) :
    ((List.range n).map fun (j : Nat) => s + j).count k = if s ≤ k ∧ k < s + n then 1 else 0 := by
  induction n with
  | zero => simp
  | succ n ih =>
    rw [List.range_succ, List.map_append, List.count_append, ih]
    simp only [List.map_cons, List.map_nil, List.count_singleton, beq_iff_eq]
    split_ifs <;> omega

/-- The indexes below the start term, and those from it on. -/
theorem assigned_indexes {b : Build} (hpreferred : req.preferredPositionInResponse = some preferred)
    (hb : build req before after = some b) {position number : Int}
    (hposition : position = clampPosition (Util.toInt before.length) (Util.toInt preferred))
    (hnumber : number = Util.toInt req.numberOfTermsRequested) :
    b.assigned.map Prod.fst =
      (List.range (Util.toInt (position - 1)).toNat).reverse.map Int.ofNat ++
        (List.range (min after.length (number - firstAfter position).toNat)).map
          (fun (k : Nat) => firstAfter position + k) ∧
    b.numEntries = firstAfter position + min after.length (number - firstAfter position).toNat := by
  rw [build, hpreferred, Option.map_some, Option.some.injEq] at hb
  subst hb
  simp only [← hposition, ← hnumber, List.map_append]
  obtain ⟨hend, hup⟩ := fillUp_indexes number after (firstAfter position)
  refine ⟨?_, hend⟩
  rw [hup]
  congr 1
  have hle : Util.toInt (position - 1) ≤ before.length := hposition ▸ clampPosition_le _ _
  by_cases hfirst : Util.toInt (position - 1) ≤ 0
  · rw [fillDown_of_le hfirst, Int.toNat_of_nonpos hfirst]
    rfl
  · exact fillDown_indexes before (by omega) le_rfl (by omega)

theorem count_assigned {b : Build} (hpreferred : req.preferredPositionInResponse = some preferred)
    (hb : build req before after = some b) {position number : Int}
    (hposition : position = clampPosition (Util.toInt before.length) (Util.toInt preferred))
    (hnumber : number = Util.toInt req.numberOfTermsRequested) (k : Int) :
    (b.assigned.map Prod.fst).count k =
      (if 0 ≤ k ∧ k < Util.toInt (position - 1) then 1 else 0) +
      (if firstAfter position ≤ k ∧ k < b.numEntries then 1 else 0) := by
  obtain ⟨hindexes, hend⟩ := assigned_indexes hpreferred hb hposition hnumber
  have hdown : ((List.range (Util.toInt (position - 1)).toNat).map Int.ofNat).count k =
      if 0 ≤ k ∧ k < Util.toInt (position - 1) then 1 else 0 := by
    have hcount := count_range_map 0 (Util.toInt (position - 1)).toNat k
    simp only [Int.zero_add] at hcount
    refine hcount.trans ?_
    congr 1
    rw [eq_iff_iff]
    omega
  rw [hindexes, List.count_append, List.map_reverse, List.count_reverse, hdown, count_range_map,
    hend]

theorem mem_assigned (b : Build) (P : Int → Prop) :
    (∀ w ∈ b.assigned, P w.1) ↔ ∀ k, 0 < (b.assigned.map Prod.fst).count k → P k := by
  simp only [List.count_pos_iff, List.mem_map]
  constructor
  · rintro h k ⟨w, hw, rfl⟩
    exact h w hw
  · intro h w hw
    exact h w.1 ⟨w, hw, rfl⟩

theorem inBuffer_iff (hrequested : 0 ≤ req.numberOfTermsRequested)
    (hpreferred : req.preferredPositionInResponse = some preferred) {lower upper : Finset Term}
    (hbefore : Keys (· > ·) before lower) (hafter : Keys (· < ·) after upper) {b : Build}
    (hb : build req before after = some b) :
    InBuffer req b ↔ HasRoom req preferred lower upper := by
  simp only [HasRoom, ← hbefore.length_eq]
  generalize hposition :
    clampPosition (Util.toInt before.length) (Util.toInt preferred) = position
  generalize hnumber : Util.toInt req.numberOfTermsRequested = number
  have hcount := count_assigned hpreferred hb hposition.symm hnumber.symm
  obtain ⟨-, hend⟩ := assigned_indexes hpreferred hb hposition.symm hnumber.symm
  have hempty : upper = ∅ ↔ after.length = 0 := by
    rw [← hafter.eq_nil_iff, List.length_eq_zero_iff]
  have halloc := allocated_nonneg number
  have hfirst : firstAfter position = if position ≤ 0 then 0 else Util.toInt (position - 1) := rfl
  have hnonneg : 0 ≤ firstAfter position :=
    firstAfter_nonneg (hposition ▸ clampPosition_le_int _ (toInt_le _))
  have hrange : number ≤ 2147483647 := hnumber ▸ toInt_le _
  have hfirstRange := toInt_le (position - 1)
  generalize Util.toInt (position - 1) = first at hcount hfirst hfirstRange ⊢
  simp only [hempty]
  constructor
  · intro h
    have hallocated := h.allocated
    rw [hnumber, mem_assigned b (· < allocated number)] at hallocated
    simp only [hcount] at hallocated
    refine ⟨?_, fun hneg hpos => ?_⟩
    · by_contra hover
      have hlast := hallocated (first - 1) (by rw [if_pos (by omega)]; omega)
      omega
    · -- both fills assign the first entry
      by_contra hboth
      have honce := h.once 0 le_rfl (by rw [hend, hfirst, if_pos hneg]; omega)
      rw [hcount, if_pos (by omega), if_pos (by rw [hend, hfirst, if_pos hneg]; omega)] at honce
      omega
  · rintro ⟨hroom, hoverlap⟩
    have hinside : ∀ k, 0 < (b.assigned.map Prod.fst).count k →
        0 ≤ k ∧ k < req.numberOfTermsRequested ∧ k < allocated number := by
      intro k hk
      have hin : 0 ≤ k ∧ (k < first ∨ k < number) := by
        rw [hcount, hend] at hk
        split_ifs at hk <;> omega
      by_cases hneg : number < 0
      · exact ⟨hin.1, lt_of_toInt_neg hrequested (hnumber ▸ hneg) (by omega), by omega⟩
      · have hself : number ≤ req.numberOfTermsRequested := hnumber ▸ toInt_le_self hrequested
        rw [allocated_of_nonneg (by omega) hrange] at hroom ⊢
        omega
    refine ⟨?_, ?_, fun k hlo hhi => ?_⟩
    · rw [mem_assigned b fun k => 0 ≤ k ∧ k < req.numberOfTermsRequested]
      exact fun k hk => ⟨(hinside k hk).1, (hinside k hk).2.1⟩
    · rw [hnumber, mem_assigned b (· < allocated number)]
      exact fun k hk => (hinside k hk).2.2
    · rw [hcount]
      rw [hend] at hhi ⊢
      rw [hfirst] at hhi ⊢
      split_ifs at hhi ⊢ <;> omega

end InBuffer

/-- What the loop over the backends comes to. -/
theorem scanInt_cases (req : ScanRequest) (backends : List BackendResult) :
    ((∃ b ∈ backends, b.endsScan = true) ∧
      ∃ closed response, scanInt req backends = .passedOn closed response) ∨
    ((∀ b ∈ backends, b.endsScan = false) ∧
      ∃ g, gatherInt req backends ⟨false, [], []⟩ = some (.ok g) ∧
        Keys (· > ·) g.before (lowerTerms req backends) ∧
        Keys (· < ·) g.after (upperTerms req backends)) := by
  by_cases hends : ∃ b ∈ backends, b.endsScan = true
  · obtain ⟨b, hb, hend⟩ := hends
    obtain ⟨r, hr⟩ := gatherInt_ends req hb hend ⟨false, [], []⟩
    exact .inl ⟨⟨b, hb, hend⟩, r.1, r.2, by rw [scanInt, hr]⟩
  · have hopen : ∀ b ∈ backends, b.endsScan = false := by
      intro b hb
      by_contra hend
      exact hends ⟨b, hb, by simpa using hend⟩
    obtain ⟨g, hg, hbefore, hafter⟩ := gatherInt_ok req hopen
      (g := ⟨false, [], []⟩) keys_nil keys_nil
    rw [Finset.empty_union] at hbefore hafter
    exact .inr ⟨hopen, g, hg, hbefore, hafter⟩

theorem not_inside_of_absent {req : ScanRequest} (habsent : req.preferredPositionInResponse = none)
    {backends : List BackendResult} (hopen : ∀ b ∈ backends, b.endsScan = false) :
    ¬ (scanInt req backends).Inside req := by
  rcases scanInt_cases req backends with ⟨⟨b, hb, hend⟩, -⟩ | ⟨-, g, hg, -, -⟩
  · rw [hopen b hb] at hend
    cases hend
  · intro h
    simp only [scanInt, hg, build, habsent, Option.map_none, ScanRun.Inside] at h

theorem inside_iff_of_preferred {req : ScanRequest} (hrequested : 0 ≤ req.numberOfTermsRequested)
    {preferred : Int} (hpreferred : req.preferredPositionInResponse = some preferred)
    {backends : List BackendResult} (hopen : ∀ b ∈ backends, b.endsScan = false) :
    (scanInt req backends).Inside req ↔
      HasRoom req preferred (lowerTerms req backends) (upperTerms req backends) := by
  rcases scanInt_cases req backends with ⟨⟨b, hb, hend⟩, -⟩ | ⟨-, g, hg, hbefore, hafter⟩
  · rw [hopen b hb] at hend
    cases hend
  · obtain ⟨b, hb⟩ : ∃ b, build req g.before g.after = some b :=
      ⟨_, by rw [build, hpreferred, Option.map_some]⟩
    rw [← inBuffer_iff hrequested hpreferred hbefore hafter hb]
    simp only [scanInt, hg, hb, ScanRun.Inside]

/-- A scan stays inside its buffer when something is passed on at once, or when the preferred
position is given and there is room for the terms before the start term. -/
theorem scan_inside_iff (req : ScanRequest) (hrequested : 0 ≤ req.numberOfTermsRequested)
    (backends : List BackendResult) :
    (scanInt req backends).Inside req ↔
      (∃ b ∈ backends, b.endsScan = true) ∨
      ∃ preferred, req.preferredPositionInResponse = some preferred ∧
        HasRoom req preferred (lowerTerms req backends) (upperTerms req backends) := by
  rcases scanInt_cases req backends with ⟨hends, closed, response, hrun⟩ | ⟨hopen, -⟩
  · rw [hrun]
    exact iff_of_true trivial (.inl hends)
  · have hnot : ¬ ∃ b ∈ backends, b.endsScan = true := by
      rintro ⟨b, hb, hend⟩
      rw [hopen b hb] at hend
      cases hend
    cases hpreferred : req.preferredPositionInResponse with
    | none =>
      refine iff_of_false (not_inside_of_absent hpreferred hopen) ?_
      rintro (h | ⟨preferred, h, -⟩)
      · exact hnot h
      · cases h
    | some preferred =>
      rw [inside_iff_of_preferred hrequested hpreferred hopen]
      constructor
      · exact fun h => .inr ⟨preferred, rfl, h⟩
      · rintro (h | ⟨preferred', h, hroom⟩)
        · exact absurd h hnot
        · cases h
          exact hroom

theorem neZero_256 : NeZero 256 := ⟨by decide⟩

section

attribute [local instance] neZero_256

/-- Three terms, with the position of the start term. -/
def answerABC (position : Int) : BackendResult :=
  ⟨false, .scan ⟨.success, 3, some position, some ⟨some [.termInfo ⟨some (letter 97), some 1⟩,
    .termInfo ⟨some (letter 98), some 1⟩, .termInfo ⟨some (letter 99), some 1⟩], none⟩⟩⟩

end

theorem scan_inside_three :
    (scanInt scanB [answerABC 2]).Inside scanB :=
  (scan_inside_iff scanB (by decide) [answerABC 2]).mpr (.inr ⟨2, rfl, by decide⟩)

/-- No preferred position; and one term requested where there is room for it in position three. -/
theorem scan_not_inside :
    ¬ (scanInt ⟨["Default"], letter 98, 3, none⟩ [answerABC 2]).Inside
        ⟨["Default"], letter 98, 3, none⟩ ∧
    ¬ (scanInt ⟨["Default"], letter 99, 1, some 3⟩ [answerABC 3]).Inside
        ⟨["Default"], letter 99, 1, some 3⟩ := by
  refine ⟨not_inside_of_absent rfl (by decide), ?_⟩
  rw [inside_iff_of_preferred (by decide) rfl (by decide)]
  decide

/-! ## Values in range -/

/-- A position from which one can be subtracted. -/
def PositionFits (position : Int) : Prop :=
  -2147483648 < position ∧ position ≤ 2147483647

structure PositionsFit (req : ScanRequest) (backends : List BackendResult) : Prop where
  preferred : ∀ p, req.preferredPositionInResponse = some p → PositionFits p
  responses : ∀ b ∈ backends, ∀ res, b.response = .scan res →
    ∀ p, res.positionOfTerm = some p → PositionFits p

theorem PositionFits.toInt_sub_one {position : Int} (h : PositionFits position) :
    Util.toInt (position - 1) = position - 1 := by
  unfold PositionFits at h
  exact Util.toInt_eq (by omega) (by omega)

theorem PositionFits.firstAfter {position : Int} (h : PositionFits position) :
    (firstAfter position).toNat = (position - 1).toNat := by
  rw [Multi.firstAfter, h.toInt_sub_one]
  split_ifs <;> omega

theorem PositionsFit.positionIn {req : ScanRequest} {backends : List BackendResult}
    (h : PositionsFit req backends) {b : BackendResult} (hb : b ∈ backends) {res : ScanResponse}
    (hres : b.response = .scan res) :
    positionIn req res = res.positionOfTerm.getD (req.preferredPositionInResponse.getD 1) ∧
      PositionFits (positionIn req res) := by
  have hfits : PositionFits (res.positionOfTerm.getD (req.preferredPositionInResponse.getD 1)) := by
    cases hp : res.positionOfTerm with
    | some p => exact h.responses b hb res hres p hp
    | none =>
      cases hpreferred : req.preferredPositionInResponse with
      | some p => exact h.preferred p hpreferred
      | none => exact ⟨by decide, by decide⟩
  have heq : Multi.positionIn req res =
      res.positionOfTerm.getD (req.preferredPositionInResponse.getD 1) := by
    have hrange := hfits
    unfold PositionFits at hrange
    exact Util.toInt_eq (by omega) (by omega)
  exact ⟨heq, heq ▸ hfits⟩

theorem gatherInt_eq {req : ScanRequest} {backends : List BackendResult}
    (h : PositionsFit req backends) (g : Gathered) :
    gatherInt req backends g = some (gather req backends g) := by
  induction backends generalizing g with
  | nil => rfl
  | cons b backends ih =>
    have hrest : PositionsFit req backends :=
      ⟨h.preferred, fun b' hb' => h.responses b' (List.mem_cons_of_mem b hb')⟩
    rw [gatherInt, gather]
    cases hres : b.response with
    | scan res =>
      simp only
      cases hdiag : res.entries.bind ListEntries.nonsurrogateDiagnostics with
      | some diagnostics => rfl
      | none =>
        cases hentries : res.entries.bind ListEntries.entries with
        | some entries =>
          obtain ⟨heq, hfits⟩ := h.positionIn List.mem_cons_self hres
          simp only [← heq, mergeEntries_eq, Option.bind_some, ih hrest, lowerEntries, upperEntries,
            hfits.firstAfter, hfits.toInt_sub_one]
        | none => exact ih hrest _
    | other encoding => rfl
    | none => rfl

theorem hasRoom_iff {req : ScanRequest} (hrequested : 0 ≤ req.numberOfTermsRequested)
    (hrequested' : req.numberOfTermsRequested ≤ 2147483647) {preferred : Int}
    (hpreferred : PositionFits preferred) {lower : Finset Term} (hlower : lower.card ≤ 2147483647)
    (upper : Finset Term) :
    HasRoom req preferred lower upper ↔
      min (preferred - 1) lower.card ≤ req.numberOfTermsRequested := by
  have hp := hpreferred
  unfold PositionFits at hp
  have hposition : clampPosition (Util.toInt lower.card) (Util.toInt preferred) - 1 =
      min (preferred - 1) lower.card := by
    rw [clampPosition, Util.toInt_eq (x := preferred) (by omega) (by omega),
      hpreferred.toInt_sub_one, Util.toInt_eq (by omega) (by omega)]
    split_ifs <;> omega
  simp only [HasRoom]
  rw [Util.toInt_eq (x := req.numberOfTermsRequested) (by omega) (by omega),
    allocated_of_nonneg hrequested hrequested', hposition,
    Util.toInt_eq (x := min (preferred - 1) lower.card) (by omega) (by omega)]
  exact and_iff_left fun hneg hpos => by omega

theorem scan_of_inside {req : ScanRequest} (hrequested : 0 ≤ req.numberOfTermsRequested)
    (hrequested' : req.numberOfTermsRequested ≤ 2147483647) {backends : List BackendResult}
    (hfit : PositionsFit req backends) (hlower : (lowerTerms req backends).card ≤ 2147483647)
    (hinside : (scanInt req backends).Inside req) : ∃ r, scan req backends = some r := by
  rcases scanInt_cases req backends with ⟨-, closed, response, hrun⟩ | ⟨hopen, g, hg, hbefore, -⟩
  · rw [scanInt, gatherInt_eq hfit] at hrun
    unfold scan
    cases hgather : gather req backends ⟨false, [], []⟩ with
    | error r => exact ⟨r, rfl⟩
    | ok g =>
      rw [hgather] at hrun
      simp only at hrun
      split at hrun <;> cases hrun
  · rw [gatherInt_eq hfit, Option.some.injEq] at hg
    cases hpreferred : req.preferredPositionInResponse with
    | none => exact absurd hinside (not_inside_of_absent hpreferred hopen)
    | some preferred =>
      rw [inside_iff_of_preferred hrequested hpreferred hopen,
        hasRoom_iff hrequested hrequested' (hfit.preferred preferred hpreferred) hlower] at hinside
      have hfits : Fits req g.before :=
        ⟨preferred, hpreferred, by rw [hbefore.length_eq]; omega⟩
      obtain ⟨res, hres⟩ := scanResponse_eq_some hfits g.after
      exact ⟨(g.closed, .scan res), by rw [scan, hg]; simp only [hres, Option.map_some]⟩

end Multi
end Metaproxy
