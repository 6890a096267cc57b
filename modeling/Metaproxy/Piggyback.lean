import Metaproxy.Multi.Negotiate
import Metaproxy.Zoom.Search

/-!
# Piggyback

The records that a search response brings along. By the protocol a result set is small when it has
at most `smallSetUpperBound` records, large when it has `largeSetLowerBound` or more, and medium in
between; `mp::util::piggyback` draws both limits elsewhere.

* `Bounds.number_eq_iff` — when the two agree on the number of records.
* `piggybackSr_byRule_iff`, `multi_byRule_iff` — when what `Zoom` and `Multi` ask for is what the
  protocol says.
-/

namespace Metaproxy
namespace Piggyback

open Z3950

/-! ## The rule -/

/-- What a search request says about the records of its response. -/
structure Bounds where
  smallSetUpperBound : Int
  largeSetLowerBound : Int
  mediumSetPresentNumber : Int
  smallSetElementSetNames : Option ElementSetNames
  mediumSetElementSetNames : Option ElementSetNames

inductive SizeClass where
  | small
  | medium
  | large
deriving DecidableEq, Repr

/-- The records a caller asks for. -/
structure Requested where
  number : Int
  elementSetName : Option (List Char)
deriving DecidableEq, Repr

def generic : Option ElementSetNames → Option (List Char)
  | some (.generic name) => some name
  | _ => none

namespace Bounds

def sizeClass (b : Bounds) (n : Int) : SizeClass :=
  if n ≤ b.smallSetUpperBound then .small
  else if b.largeSetLowerBound ≤ n then .large
  else .medium

def number (b : Bounds) (n : Int) : Int :=
  match b.sizeClass n with
  | .small => n
  | .medium => min b.mediumSetPresentNumber n
  | .large => 0

def elementSetName (b : Bounds) (n : Int) : Option (List Char) :=
  match b.sizeClass n with
  | .small => generic b.smallSetElementSetNames
  | .medium => generic b.mediumSetElementSetNames
  | .large => none

end Bounds

/-- A caller that asks for records asks for the number and by the name of the rule. -/
structure ByRule (b : Bounds) (n : Int) (r : Requested) : Prop where
  number : r.number = b.number n
  elementSetName : 0 < r.number → r.elementSetName = b.elementSetName n

/-- `piggyback_sr`. -/
def piggybackSr (sreq : Bounds) (resultSetSize : Int) : Requested where
  number := Util.piggyback sreq.smallSetUpperBound sreq.largeSetLowerBound
    sreq.mediumSetPresentNumber resultSetSize
  elementSetName := Util.piggybackElementSetName sreq.smallSetUpperBound sreq.largeSetLowerBound
    (generic sreq.smallSetElementSetNames) (generic sreq.mediumSetElementSetNames) resultSetSize

namespace Bounds

/-- At a limit, the class that `piggyback` takes asks for as many records as the right one. -/
structure Agree (b : Bounds) (n : Int) : Prop where
  small : n = b.smallSetUpperBound → n ≤ b.mediumSetPresentNumber
  large : n = b.largeSetLowerBound → min b.mediumSetPresentNumber n = 0

variable {b : Bounds} {n : Int}

theorem rule_of_ne (hbounds : b.smallSetUpperBound < b.largeSetLowerBound)
    (hsmall : n ≠ b.smallSetUpperBound) (hlarge : n ≠ b.largeSetLowerBound) :
    (piggybackSr b n).number = b.number n ∧
      (piggybackSr b n).elementSetName = b.elementSetName n := by
  unfold piggybackSr Util.piggyback Util.piggybackElementSetName
  by_cases hlt : n < b.smallSetUpperBound
  · have hclass : b.sizeClass n = .small := if_pos hlt.le
    simp only [if_pos hlt, number, elementSetName, hclass, and_self]
  · by_cases hgt : n > b.largeSetLowerBound
    · have hclass : b.sizeClass n = .large := by
        rw [sizeClass, if_neg (by omega), if_pos hgt.le]
      simp only [if_neg hlt, if_pos hgt, number, elementSetName, hclass, and_self]
    · have hclass : b.sizeClass n = .medium := by
        rw [sizeClass, if_neg (by omega), if_neg (by omega)]
      simp only [if_neg hlt, if_neg hgt, number, elementSetName, hclass, and_true]
      split_ifs <;> omega

/-- At a limit `piggyback` takes the medium class. -/
theorem piggybackSr_of_limit (hbounds : b.smallSetUpperBound < b.largeSetLowerBound)
    (h : n = b.smallSetUpperBound ∨ n = b.largeSetLowerBound) :
    piggybackSr b n = ⟨min b.mediumSetPresentNumber n, generic b.mediumSetElementSetNames⟩ := by
  have hlt : ¬ n < b.smallSetUpperBound := by omega
  have hgt : ¬ n > b.largeSetLowerBound := by omega
  rw [piggybackSr, Util.piggyback, Util.piggybackElementSetName, if_neg hlt, if_neg hlt, if_neg hgt,
    if_neg hgt, Requested.mk.injEq]
  refine ⟨?_, rfl⟩
  split_ifs <;> omega

theorem sizeClass_of_eq_small (h : n = b.smallSetUpperBound) : b.sizeClass n = .small :=
  if_pos h.le

theorem sizeClass_of_eq_large (hbounds : b.smallSetUpperBound < b.largeSetLowerBound)
    (h : n = b.largeSetLowerBound) : b.sizeClass n = .large := by
  rw [sizeClass, if_neg (by omega), if_pos h.ge]

theorem number_eq_iff (hbounds : b.smallSetUpperBound < b.largeSetLowerBound) :
    (piggybackSr b n).number = b.number n ↔ b.Agree n := by
  by_cases hsmall : n = b.smallSetUpperBound
  · rw [piggybackSr_of_limit hbounds (.inl hsmall), number, sizeClass_of_eq_small hsmall]
    exact ⟨fun h => ⟨fun _ => by simp only at h; omega, fun h' => by omega⟩, fun h => by
      have := h.small hsmall
      simp only
      omega⟩
  · by_cases hlarge : n = b.largeSetLowerBound
    · rw [piggybackSr_of_limit hbounds (.inr hlarge), number, sizeClass_of_eq_large hbounds hlarge]
      exact ⟨fun h => ⟨fun h' => absurd h' hsmall, fun _ => h⟩, fun h => h.large hlarge⟩
    · exact iff_of_true (rule_of_ne hbounds hsmall hlarge).1
        ⟨fun h => absurd h hsmall, fun h => absurd h hlarge⟩

/-- With the bounds that the backends of `Multi` get, no records are ever brought along. -/
theorem number_of_disabled (hsmall : b.smallSetUpperBound = 0) (hlarge : b.largeSetLowerBound = 1)
    (hmedium : b.mediumSetPresentNumber = 0) (hn : 0 ≤ n) :
    (piggybackSr b n).number = 0 ∧ b.number n = 0 := by
  have hagree : b.Agree n := ⟨fun h => by omega, fun h => by omega⟩
  have heq := (number_eq_iff (by omega)).mpr hagree
  have hzero : b.number n = 0 := by
    unfold number sizeClass
    split_ifs <;> simp only [hmedium] <;> omega
  exact ⟨heq.trans hzero, hzero⟩

end Bounds

/-! ## Zoom -/

section Zoom

/-- The bounds of a request, with its element set names. -/
def zoomBounds (sr : Zoom.SearchRequest) (small medium : Option ElementSetNames) : Bounds :=
  ⟨sr.smallSetUpperBound, sr.largeSetLowerBound, sr.mediumSetPresentNumber, small, medium⟩

/-- A search that found something goes on with the number of `piggyback_sr`. -/
theorem searchBackend_requests (yaz : Zoom.Yaz) (impl : Zoom.Impl) (sr : Zoom.SearchRequest)
    (small medium : Option ElementSetNames) (l : Zoom.Loop) (b : Zoom.Backend) {a : Zoom.Attempt}
    {q : _} (hquery : Zoom.toZoomQuery yaz impl b.sptr sr.query = some (.ok q)) {hits : Int}
    (hits_eq : a.search = .ok hits) :
    Zoom.searchBackend yaz impl sr l b a =
      .done (Zoom.found (l.frontend.search b).1 hits
        (Zoom.getRecords 0 (piggybackSr (zoomBounds sr small medium) hits).number
          (l.frontend.search b).2 a.present)) := by
  rw [Zoom.searchBackend, hquery]
  simp only [hits_eq]
  rfl

variable {b : Bounds} {n : Int}

theorem piggybackSr_byRule_iff (hbounds : b.smallSetUpperBound < b.largeSetLowerBound) :
    ByRule b n (piggybackSr b n) ↔ b.Agree n ∧
      (n = b.smallSetUpperBound → 0 < n →
        generic b.mediumSetElementSetNames = generic b.smallSetElementSetNames) := by
  constructor
  · intro h
    refine ⟨(Bounds.number_eq_iff hbounds).mp h.number, fun hsmall hpos => ?_⟩
    have hnumber := h.number
    have hname := h.elementSetName
    rw [Bounds.number, Bounds.sizeClass_of_eq_small hsmall] at hnumber
    rw [hnumber, Bounds.elementSetName, Bounds.sizeClass_of_eq_small hsmall,
      Bounds.piggybackSr_of_limit hbounds (.inl hsmall)] at hname
    exact hname hpos
  · rintro ⟨hagree, hnames⟩
    have hnumber := (Bounds.number_eq_iff hbounds).mpr hagree
    refine ⟨hnumber, fun hpos => ?_⟩
    by_cases hsmall : n = b.smallSetUpperBound
    · rw [hnumber, Bounds.number, Bounds.sizeClass_of_eq_small hsmall] at hpos
      rw [Bounds.elementSetName, Bounds.sizeClass_of_eq_small hsmall,
        Bounds.piggybackSr_of_limit hbounds (.inl hsmall)]
      exact hnames hsmall hpos
    · by_cases hlarge : n = b.largeSetLowerBound
      · rw [hnumber, Bounds.number, Bounds.sizeClass_of_eq_large hbounds hlarge] at hpos
        exact absurd hpos (lt_irrefl 0)
      · exact (Bounds.rule_of_ne hbounds hsmall hlarge).2

end Zoom

/-! ## Multi -/

section Multi

open Multi

variable {ρ : Type*}

def multiBounds (req : Multi.SearchRequest) (small medium : Option ElementSetNames) : Bounds :=
  ⟨req.smallSetUpperBound, req.largeSetLowerBound, req.mediumSetPresentNumber, small, medium⟩

/-- The present request that `search` makes for its own response. -/
def searchPresent (rep : Rep) (f : Frontend ρ) (req : Multi.SearchRequest)
    (out : BackendPtr → Outcome ρ) : Option PresentRequest :=
  let g := look Gdu.searchRecords (f.multiMove f.backendList out) f.backendList
  if g.close rep.hideUnavailable = none ∧ g.zDiag = none ∧
      0 < (piggybackRequest f req out).numberOfRecordsRequested then
    some (piggybackRequest f req out)
  else none

def requestedBy : Option PresentRequest → Requested
  | none => ⟨0, none⟩
  | some req =>
    ⟨req.numberOfRecordsRequested,
      match req.recordComposition with
      | some (.simple esn) => generic (some esn)
      | _ => none⟩

/-- What is sent for a search: the searches, and what this present request comes to. -/
theorem search_sent (rep : Rep) (f : Frontend ρ) (req : Multi.SearchRequest)
    (out pout : BackendPtr → Outcome ρ) :
    (search rep f req out pout).sent = searchSent rep f req ++
      match searchPresent rep f req out with
      | some p => (present rep (afterSearch f req out) p pout).sent
      | none => [] := by
  cases hclose : (look Gdu.searchRecords (f.multiMove f.backendList out) f.backendList).close
      rep.hideUnavailable with
  | some b =>
    have hnone : searchPresent rep f req out = none := if_neg (by simp [hclose])
    rw [hnone, List.append_nil]
    unfold search
    have hlist : (f.multiMove f.backendList out).backendList = f.backendList := rfl
    simp only [hlist, hclose]
    rfl
  | none =>
    rw [search_eq hclose]
    unfold searchPresent
    simp only [hclose, true_and]
    split_ifs
    · rfl
    · exact (List.append_nil _).symm

/-- No target answers with diagnostics, and if one has closed, that is hidden behind a success. -/
structure Clean (rep : Rep) (f : Frontend ρ) (out : BackendPtr → Outcome ρ) : Prop where
  diagnostics : ∀ b ∈ f.backendList,
    (f.multiMove f.backendList out).fails Gdu.searchRecords b = false
  closed : ∀ b ∈ f.backendList, (f.multiMove f.backendList out).isClosed b = true →
    rep.hideUnavailable = true ∧ ∃ b' ∈ f.backendList,
      (f.multiMove f.backendList out).succeeds Gdu.searchRecords b' = true

theorem clean_iff {rep : Rep} {f : Frontend ρ} {out : BackendPtr → Outcome ρ} :
    (look Gdu.searchRecords (f.multiMove f.backendList out) f.backendList).close
        rep.hideUnavailable = none ∧
      (look Gdu.searchRecords (f.multiMove f.backendList out) f.backendList).zDiag = none ↔
    Clean rep f out := by
  generalize hg : f.multiMove f.backendList out = g
  have hdiag : (look Gdu.searchRecords g f.backendList).zDiag = none ↔
      ∀ b ∈ f.backendList, g.fails Gdu.searchRecords b = false := by
    rw [look_eq]
    simp only [ite_eq_right_iff, reduceCtorEq, imp_false, List.any_eq_true, not_exists, not_and,
      Bool.not_eq_true]
  have hclose : (look Gdu.searchRecords g f.backendList).close rep.hideUnavailable = none ↔
      ∀ b ∈ f.backendList, g.isClosed b = true → rep.hideUnavailable = true ∧
        ∃ b' ∈ f.backendList, g.succeeds Gdu.searchRecords b' = true := by
    rw [look_eq, Found.close, Found.reports]
    simp only [Bool.or_eq_true, decide_eq_true_eq, Bool.not_eq_true', ite_eq_right_iff,
      List.getLast?_eq_none_iff, List.filter_eq_nil_iff, Bool.not_eq_true]
    have hcount : f.backendList.countP (g.succeeds Gdu.searchRecords) = 0 ↔
        ¬ ∃ b' ∈ f.backendList, g.succeeds Gdu.searchRecords b' = true := by
      rw [List.countP_eq_zero]
      push Not
      rfl
    rw [hcount]
    constructor
    · intro h b hb hclosed
      by_contra hnot
      have := h (by cases hhide : rep.hideUnavailable <;> simp_all) b hb
      rw [hclosed] at this
      cases this
    · intro h hreports b hb
      by_contra hclosed
      obtain ⟨hhide, hsucceeds⟩ := h b hb (by simpa using hclosed)
      rcases hreports with hnone | hshow
      · exact hnone hsucceeds
      · rw [hhide] at hshow
        cases hshow
  subst hg
  rw [hdiag, hclose]
  exact ⟨fun h => ⟨h.2, h.1⟩, fun h => ⟨h.closed, h.diagnostics⟩⟩

theorem multi_byRule_iff {rep : Rep} {f : Frontend ρ} {req : Multi.SearchRequest}
    {out : BackendPtr → Outcome ρ} {small medium : Option ElementSetNames} {b : Bounds} {n : Int}
    (hb : multiBounds req small medium = b)
    (hn : (f.multiMove f.backendList out).resultSetSize = n) (hpos : 0 ≤ n)
    (hbounds : b.smallSetUpperBound < b.largeSetLowerBound)
    (hmedium : 0 ≤ b.mediumSetPresentNumber) :
    ByRule b n (requestedBy (searchPresent rep f req out)) ↔
      (0 < b.number n → Clean rep f out ∧ b.elementSetName n = none) ∧
        (Clean rep f out → b.Agree n) := by
  have hcode : (piggybackRequest f req out).numberOfRecordsRequested = (piggybackSr b n).number := by
    subst hb hn
    rfl
  have hnonneg : 0 ≤ (piggybackSr b n).number := by
    unfold piggybackSr Util.piggyback
    simp only
    split_ifs <;> omega
  have hrule : 0 ≤ b.number n := by
    unfold Bounds.number Bounds.sizeClass
    split_ifs <;> simp only <;> omega
  have hagree := Bounds.number_eq_iff (n := n) hbounds
  by_cases hclean : Clean rep f out
  · obtain ⟨hclose, hdiag⟩ := clean_iff.mpr hclean
    have hrequested : requestedBy (searchPresent rep f req out) =
        ⟨(piggybackSr b n).number, none⟩ := by
      rw [searchPresent]
      simp only [hclose, hdiag, hcode, true_and]
      split_ifs with h
      · rw [requestedBy, hcode]
        rfl
      · have hzero : (piggybackSr b n).number = 0 := by omega
        rw [hzero]
        rfl
    rw [hrequested]
    constructor
    · intro h
      have heq : (piggybackSr b n).number = b.number n := h.number
      exact ⟨fun hlt => ⟨hclean, (h.elementSetName (heq ▸ hlt)).symm⟩, fun _ => hagree.mp heq⟩
    · rintro ⟨hname, h⟩
      have heq := hagree.mpr (h hclean)
      exact ⟨heq, fun hlt => (hname (heq ▸ hlt)).2.symm⟩
  · have hrequested : requestedBy (searchPresent rep f req out) = ⟨0, none⟩ := by
      rw [searchPresent, if_neg fun h => hclean (clean_iff.mp ⟨h.1, h.2.1⟩)]
      rfl
    rw [hrequested]
    constructor
    · intro h
      have heq : 0 = b.number n := h.number
      exact ⟨fun hlt => by omega, fun h => absurd h hclean⟩
    · rintro ⟨h, -⟩
      refine ⟨?_, fun hlt => absurd hlt (lt_irrefl 0)⟩
      by_contra hne
      exact hclean (h (lt_of_le_of_ne hrule hne)).1

end Multi

/-- When the records of a search response are those of the protocol, in `Zoom` and in `Multi`; and
that the bounds `Multi` sends bring none along. -/
theorem piggyback_byRule_iff {ρ : Type*} (b : Bounds)
    (hbounds : b.smallSetUpperBound < b.largeSetLowerBound)
    (hmedium : 0 ≤ b.mediumSetPresentNumber) (n : Int) (hn : 0 ≤ n) :
    (ByRule b n (piggybackSr b n) ↔ b.Agree n ∧
      (n = b.smallSetUpperBound → 0 < n →
        generic b.mediumSetElementSetNames = generic b.smallSetElementSetNames)) ∧
    (∀ (rep : Multi.Rep) (f : Multi.Frontend ρ) (req : Multi.SearchRequest)
      (out : Multi.BackendPtr → Multi.Outcome ρ) (small medium : Option ElementSetNames),
      multiBounds req small medium = b →
      (f.multiMove f.backendList out).resultSetSize = n →
      (ByRule b n (requestedBy (searchPresent rep f req out)) ↔
        (0 < b.number n → Clean rep f out ∧ b.elementSetName n = none) ∧
          (Clean rep f out → b.Agree n))) ∧
    ∀ (hostArgs : String → Option String) (req : Multi.SearchRequest) (vhost : String)
      (small medium : Option ElementSetNames),
      (piggybackSr (multiBounds (req.forBackend hostArgs vhost) small medium) n).number = 0 ∧
        (multiBounds (req.forBackend hostArgs vhost) small medium).number n = 0 :=
  ⟨piggybackSr_byRule_iff hbounds,
    fun _ _ _ _ _ _ hb hsize => multi_byRule_iff hb hsize hn hbounds hmedium,
    fun _ _ _ _ _ => Bounds.number_of_disabled rfl rfl rfl hn⟩

/-- Ten records when there are at most ten, five of a set of less than twenty. -/
def tenTwentyFive : Bounds := ⟨10, 20, 5, none, none⟩

def oneTarget : Multi.Frontend Unit :=
  { Multi.Frontend.new with backendList := [0], distinct := List.nodup_singleton 0 }

/-- One target finds a number of records. -/
def foundHits (hits : Int) (_ : Multi.BackendPtr) : Multi.Outcome Unit :=
  ⟨false, some (.search ⟨hits, 0, 0, none⟩)⟩

def searchTen : Multi.SearchRequest := ⟨"default", ["Default"], 10, 20, 5, none, []⟩

theorem piggyback_byRule_three :
    ByRule tenTwentyFive 3 (piggybackSr tenTwentyFive 3) ∧
    ByRule tenTwentyFive 3
      (requestedBy (searchPresent Multi.hideRep oneTarget searchTen (foundHits 3))) := by
  obtain ⟨hzoom, hmulti, -⟩ :=
    piggyback_byRule_iff (ρ := Unit) tenTwentyFive (by decide) (by decide) 3 (by decide)
  refine ⟨hzoom.mpr ⟨⟨by decide, by decide⟩, by decide⟩,
    (hmulti _ _ _ _ none none rfl (by decide)).mpr ⟨fun _ => ⟨⟨by decide, by decide⟩, by decide⟩,
      fun _ => ⟨by decide, by decide⟩⟩⟩

/-- At both limits, in both callers. -/
theorem piggyback_not_byRule :
    ¬ ByRule tenTwentyFive 10 (piggybackSr tenTwentyFive 10) ∧
    ¬ ByRule tenTwentyFive 20 (piggybackSr tenTwentyFive 20) ∧
    ¬ ByRule tenTwentyFive 10 (requestedBy (searchPresent Multi.hideRep oneTarget searchTen
      (foundHits 10))) ∧
    ¬ ByRule tenTwentyFive 20 (requestedBy (searchPresent Multi.hideRep oneTarget searchTen
      (foundHits 20))) := by
  refine ⟨fun h => ?_, fun h => ?_, fun h => ?_, fun h => ?_⟩ <;>
    exact absurd h.number (by decide)

end Piggyback
end Metaproxy
