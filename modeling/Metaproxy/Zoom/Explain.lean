import Metaproxy.Lib.Seek
import Metaproxy.Zoom.Search

/-!
# Zoom.Explain

Explain searches and presents. Both go through the document with `xml_node_search`, one to count the
`recordData` elements and one to get at them by number.

* `xmlNodeSearch_eq_seek` — on a tree it is a search in the list of its outermost elements.
* `explainLoop_eq` — what a present returns.
* `explain_agrees_iff` — when search and present agree.
-/

namespace Metaproxy
namespace Zoom

open Lib

variable {m : Int} {num i : Nat}

/-! ## Outermost elements -/

/-- The children of each `recordData` element that is not in another one, in document order. -/
def outermost : List XmlNode → List (List XmlNode)
  | [] => []
  | .other _ :: ptr => outermost ptr
  | .element name children :: ptr =>
    if name = "recordData".toList then children :: outermost ptr
    else outermost children ++ outermost ptr
decreasing_by all_goals (simp only [List.cons.sizeOf_spec, XmlNode.element.sizeOf_spec]; omega)

theorem xmlNodeSearch_eq_seek (m : Int) (ptr : List XmlNode) (num : Nat) :
    xmlNodeSearch m ptr num = seek (fun k : Nat => m = Util.toInt k) (outermost ptr) num := by
  induction ptr, num using xmlNodeSearch.induct (m := m) with
  | case1 num => rw [xmlNodeSearch, outermost, seek]
  | case2 content ptr num ih =>
    rw [xmlNodeSearch, outermost]
    exact ih
  | case3 children ptr num hm =>
    rw [xmlNodeSearch, outermost, if_pos rfl, if_pos rfl, if_pos hm, seek]
    exact (if_pos hm).symm
  | case4 children ptr num hm ih =>
    rw [xmlNodeSearch, outermost, if_pos rfl, if_pos rfl, if_neg hm, seek, ih]
    exact (if_neg hm).symm
  | case5 name children ptr num hname retNode num' hfound ih =>
    rw [xmlNodeSearch, outermost, if_neg hname, if_neg hname, seek_append, ← ih, hfound]
    rfl
  | case6 name children ptr num hname num' hfound ih ih' =>
    rw [xmlNodeSearch, outermost, if_neg hname, if_neg hname, seek_append, ← ih, hfound]
    exact ih'

/-! ## Numbers -/

section Document

variable {doc : List XmlNode}

/-- How many there are, when the counter has not come round. -/
theorem xmlNodeSearch_count (hlen : (outermost doc).length < 2147483648) :
    (xmlNodeSearch 0 doc 0).2 = (outermost doc).length := by
  rw [xmlNodeSearch_eq_seek, seek_of_none]
  · exact Nat.zero_add _
  · intro i hi heq
    rw [Util.toInt_eq (by omega) (by omega)] at heq
    omega

theorem xmlNodeSearch_of_out (hlen : (outermost doc).length < 2147483648)
    (hm : m < 1 ∨ (outermost doc).length < m) : (xmlNodeSearch m doc 0).1 = none := by
  rw [xmlNodeSearch_eq_seek, seek_of_none]
  intro i hi heq
  rw [Util.toInt_eq (by omega) (by omega)] at heq
  omega

theorem xmlNodeSearch_of_lt (hlen : (outermost doc).length < 2147483648)
    (hi : i < (outermost doc).length) :
    (xmlNodeSearch (i + 1 : Nat) doc 0).1 = (outermost doc)[i]? := by
  rw [xmlNodeSearch_eq_seek, seek_of_first hi]
  · rw [Util.toInt_eq (by omega) (by omega), Nat.zero_add]
  · intro j hj heq
    rw [Util.toInt_eq (by omega) (by omega)] at heq
    omega

/-- The number after the last may not be an `int` any more. -/
theorem xmlNodeSearch_number (hlen : (outermost doc).length < 2147483648) (hi : i < 2147483648) :
    (xmlNodeSearch (Util.toInt (i + 1 : Nat)) doc 0).1 = (outermost doc)[i]? := by
  by_cases hlt : i < (outermost doc).length
  · rw [Util.toInt_eq (by omega) (by omega), xmlNodeSearch_of_lt hlen hlt]
  · rw [List.getElem?_eq_none (Nat.not_lt.mp hlt)]
    refine xmlNodeSearch_of_out hlen ?_
    by_cases hint : i + 1 < 2147483648
    · rw [Util.toInt_eq (by omega) (by omega)]
      omega
    · rw [Util.toInt_eq_sub (by omega) (by omega)]
      omega

/-! ## Searches -/

theorem explainSearch_explained {impl : Impl} {f f' : Frontend} {database : List Char}
    {query : Query} {res : Z3950.SearchResponse NamePlusRecord}
    (h : explainSearch impl f database query (.ok doc) = .explained f' res) :
    f'.backend = some (.explain ⟨f.made, database, doc⟩) ∧
      res.resultCount = Util.toInt (xmlNodeSearch 0 doc 0).2 := by
  unfold explainSearch at h
  simp only at h
  split at h
  · split at h
    · cases h
      refine ⟨rfl, ?_⟩
      rw [searchResponse]
    · cases h
  · cases h

/-! ## Presents -/

/-- The record of an element, which is made from its first child. -/
def explainRecord (databaseName : List Char) (children : List XmlNode) : Option NamePlusRecord :=
  children.head?.map (.explainRecord databaseName)

theorem explainLoop_eq_some_iff (hlen : (outermost doc).length < 2147483648) {n : Nat}
    (hi : i < 2147483648) (databaseName : List Char) (l : List NamePlusRecord) :
    explainLoop databaseName doc (i + 1 : Nat) n = some l ↔
      l.map some = (((outermost doc).drop i).take n).map (explainRecord databaseName) := by
  induction n generalizing i l with
  | zero =>
    rw [explainLoop, List.take_zero, List.map_nil, List.map_eq_nil_iff, Option.some.injEq]
    exact eq_comm
  | succ n ih =>
    rw [explainLoop, xmlNodeSearch_number hlen hi]
    by_cases hlt : i < (outermost doc).length
    · rw [List.getElem?_eq_getElem hlt, List.drop_eq_getElem_cons hlt, List.take_succ_cons,
        List.map_cons]
      cases hchildren : (outermost doc)[i] with
      | nil =>
        simp only [explainRecord, List.head?_nil, Option.map_none]
        refine iff_of_false (fun h => by cases h) fun h => ?_
        cases l with
        | nil => cases h
        | cons r l => cases (List.cons.inj h).1
      | cons child rest =>
        have hnext : ((i + 1 : Nat) : Int) + 1 = ((i + 1 + 1 : Nat) : Int) := rfl
        simp only [explainRecord, List.head?_cons, Option.map_some, hnext]
        rw [Option.map_eq_some_iff]
        constructor
        · rintro ⟨l', hl', rfl⟩
          rw [List.map_cons, (ih (by omega) l').mp hl']
        · intro h
          cases l with
          | nil => cases h
          | cons r l =>
            obtain ⟨hr, hl⟩ := List.cons.inj h
            obtain rfl := Option.some.inj hr
            exact ⟨l, (ih (by omega) l).mpr hl, rfl⟩
    · rw [List.getElem?_eq_none (Nat.not_lt.mp hlt), List.drop_eq_nil_of_le (Nat.not_lt.mp hlt),
        List.take_nil, List.map_nil, List.map_eq_nil_iff, Option.some.injEq]
      exact eq_comm

/-- The outermost elements from `start` on, of which there are `number` at most. -/
def windowOf (doc : List XmlNode) (start number : Int) : List (List XmlNode) :=
  ((outermost doc).drop (start.toNat - 1)).take (min number 10000).toNat

/-- The search says how many elements there are, and a present shows those from `start` on. -/
structure Agrees (doc : List XmlNode) (start number : Int) (f : Frontend)
    (res : Z3950.SearchResponse NamePlusRecord) : Prop where
  hits : res.resultCount = (outermost doc).length
  shown : ∃ e l, f.backend = some (.explain e) ∧
    getExplainRecords (start - 1) number e = some ⟨none, none, some l⟩ ∧
    l.map some = (windowOf doc start number).map (explainRecord e.frontendDatabase)

theorem exists_records_iff (databaseName : List Char) (found : List (List XmlNode)) :
    (∃ l : List NamePlusRecord, l.map some = found.map (explainRecord databaseName)) ↔
      ∀ children ∈ found, children ≠ [] := by
  induction found with
  | nil => exact iff_of_true ⟨[], rfl⟩ fun children h => by cases h
  | cons children found ih =>
    rw [List.forall_mem_cons, ← ih]
    cases children with
    | nil =>
      refine iff_of_false ?_ fun h => h.1 rfl
      rintro ⟨l, hl⟩
      cases l with
      | nil => cases hl
      | cons r l => cases (List.cons.inj hl).1
    | cons child rest =>
      constructor
      · rintro ⟨l, hl⟩
        cases l with
        | nil => cases hl
        | cons r l => exact ⟨List.cons_ne_nil child rest, l, (List.cons.inj hl).2⟩
      · rintro ⟨-, l, hl⟩
        exact ⟨.explainRecord databaseName child :: l, congrArg _ hl⟩

/-- A start that is not an `int` is behind the last element, but may be taken for another one. -/
theorem explainLoop_large (hlen : (outermost doc).length < 2147483648) (start : Int) (n : Nat)
    (databaseName : List Char) : explainLoop databaseName doc start n = some [] ↔
      n = 0 ∨ Util.toInt start < 1 ∨ (outermost doc).length < Util.toInt start := by
  cases n with
  | zero => exact iff_of_true rfl (.inl rfl)
  | succ n =>
    rw [explainLoop]
    by_cases hout : Util.toInt start < 1 ∨ (outermost doc).length < Util.toInt start
    · rw [xmlNodeSearch_of_out hlen hout]
      exact iff_of_true rfl (.inr hout)
    · have hindex : Util.toInt start = ((Util.toInt start).toNat - 1 + 1 : Nat) := by omega
      have hlt : (Util.toInt start).toNat - 1 < (outermost doc).length := by omega
      rw [hindex, xmlNodeSearch_of_lt hlen hlt, List.getElem?_eq_getElem hlt, ← hindex]
      refine iff_of_false (fun h => ?_) fun h => ?_
      · split at h
        · rename_i hnone
          cases hnone
        · cases h
        · obtain ⟨l, -, hl⟩ := Option.map_eq_some_iff.mp h
          cases hl
      · rcases h with hzero | hout'
        · cases hzero
        · exact hout hout'

theorem explainLoop_shows_iff (hlen : (outermost doc).length < 2147483648) {start number : Int}
    (hstart : 1 ≤ start) (hnumber : 0 ≤ number) (databaseName : List Char) :
    (∃ l, explainLoop databaseName doc start (min number 10000).toNat = some l ∧
      l.map some = (windowOf doc start number).map (explainRecord databaseName)) ↔
      (∀ children ∈ windowOf doc start number, children ≠ []) ∧
        (start < 2147483648 ∨ number = 0 ∨ Util.toInt start < 1 ∨
          (outermost doc).length < Util.toInt start) := by
  rw [← exists_records_iff databaseName]
  by_cases hint : start < 2147483648
  · have hindex : start = ((start.toNat - 1 + 1 : Nat) : Int) := by omega
    have hloop : ∀ l, explainLoop databaseName doc start (min number 10000).toNat = some l ↔
        l.map some = (windowOf doc start number).map (explainRecord databaseName) := by
      intro l
      rw [windowOf, ← explainLoop_eq_some_iff hlen (by omega), ← hindex]
    rw [and_iff_left (.inl hint)]
    refine exists_congr fun l => ?_
    rw [hloop, and_self]
  · have hempty : windowOf doc start number = [] := by
      rw [windowOf, List.drop_eq_nil_of_le (by omega), List.take_nil]
    have hzero : (min number 10000).toNat = 0 ↔ number = 0 := by omega
    have hlarge := explainLoop_large hlen start (min number 10000).toNat databaseName
    simp only [hempty, List.map_nil, List.map_eq_nil_iff, exists_eq, exists_eq_right, true_and,
      hint, false_or, hlarge, hzero]

section Agrees

variable {impl : Impl} {f f' : Frontend} {database : List Char} {query : Query}
  {res : Z3950.SearchResponse NamePlusRecord} {start number : Int}

theorem lt_of_hits (h : explainSearch impl f database query (.ok doc) = .explained f' res)
    (hhits : res.resultCount = (outermost doc).length) :
    (outermost doc).length < 2147483648 := by
  have hlt : res.resultCount < 2147483648 := by
    rw [(explainSearch_explained h).2]
    exact Util.toInt_lt _
  omega

theorem hits_of_lt (h : explainSearch impl f database query (.ok doc) = .explained f' res)
    (hlen : (outermost doc).length < 2147483648) :
    res.resultCount = (outermost doc).length := by
  rw [(explainSearch_explained h).2, xmlNodeSearch_count hlen]
  exact Util.toInt_eq (by omega) (by omega)

theorem shown_iff (h : explainSearch impl f database query (.ok doc) = .explained f' res)
    (hlen : (outermost doc).length < 2147483648) (hstart : 1 ≤ start) (hnumber : 0 ≤ number) :
    (∃ e l, f'.backend = some (.explain e) ∧
      getExplainRecords (start - 1) number e = some ⟨none, none, some l⟩ ∧
      l.map some = (windowOf doc start number).map (explainRecord e.frontendDatabase)) ↔
      (∀ children ∈ windowOf doc start number, children ≠ []) ∧
        (start < 2147483648 ∨ number = 0 ∨ Util.toInt start < 1 ∨
          (outermost doc).length < Util.toInt start) := by
  have hbackend := (explainSearch_explained h).1
  have hstart' : start - 1 + 1 = start := by omega
  rw [← explainLoop_shows_iff hlen hstart hnumber database]
  constructor
  · rintro ⟨e, l, he, hl, hshown⟩
    rw [hbackend] at he
    cases he
    rw [getExplainRecords, hstart'] at hl
    obtain ⟨l', hl', heq⟩ := Option.map_eq_some_iff.mp hl
    cases heq
    exact ⟨l, hl', hshown⟩
  · rintro ⟨l, hl, hshown⟩
    refine ⟨_, l, hbackend, ?_, hshown⟩
    rw [getExplainRecords, hstart', hl, Option.map_some]

/-- For every document, start and number: the search counts the outermost elements, and the present
shows those that it should, if and only if there are fewer than 2^31, each of those to be shown has
a child, and a start that is not an `int` is not taken for one that is in range. -/
theorem explain_agrees_iff
    (h : explainSearch impl f database query (.ok doc) = .explained f' res) (hstart : 1 ≤ start)
    (hnumber : 0 ≤ number) : Agrees doc start number f' res ↔
      (outermost doc).length < 2147483648 ∧
      (∀ children ∈ windowOf doc start number, children ≠ []) ∧
      (start < 2147483648 ∨ number = 0 ∨ Util.toInt start < 1 ∨
        (outermost doc).length < Util.toInt start) := by
  constructor
  · rintro ⟨hhits, hshown⟩
    have hlen := lt_of_hits h hhits
    exact ⟨hlen, (shown_iff h hlen hstart hnumber).mp hshown⟩
  · rintro ⟨hlen, hshown⟩
    exact ⟨hits_of_lt h hlen, (shown_iff h hlen hstart hnumber).mpr hshown⟩

end Agrees

end Document

/-! ## Two elements -/

def explains : Impl := ⟨[], [], [], ∅, ∅, true⟩

def anyCql : Query := .type104 "a".toList

def recordData (children : List XmlNode) : XmlNode := .element "recordData".toList children

/-- Two elements at different depths, the first one with another one in it. -/
def twoDeep : List XmlNode :=
  [.element "records".toList
    [recordData [recordData [.other "a".toList]],
      .element "record".toList [recordData [.other "b".toList]]]]

theorem outermost_recordData (children ptr : List XmlNode) :
    outermost (recordData children :: ptr) = children :: outermost ptr := by
  rw [recordData, outermost, if_pos rfl]

theorem outermost_twoDeep :
    outermost twoDeep = [[recordData [.other "a".toList]], [.other "b".toList]] := by
  have hrecords : ¬ "records".toList = "recordData".toList := by decide
  have hrecord : ¬ "record".toList = "recordData".toList := by decide
  simp only [twoDeep, outermost, hrecords, hrecord, if_false, outermost_recordData,
    List.append_nil]

theorem explain_agrees_two : ∃ f' res,
    explainSearch explains ⟨[], none, 0⟩ [] anyCql (.ok twoDeep) = .explained f' res ∧
      res.resultCount = 2 ∧ Agrees twoDeep 2 5 f' res := by
  have hsearch : explainSearch explains ⟨[], none, 0⟩ [] anyCql (.ok twoDeep) =
      .explained _ _ := rfl
  have hlen : (outermost twoDeep).length = 2 := by
    rw [outermost_twoDeep]
    rfl
  have hagrees := (explain_agrees_iff hsearch (by decide : (1 : Int) ≤ 2)
    (by decide : (0 : Int) ≤ 5)).mpr ⟨by omega, ?_, .inl (by decide)⟩
  · refine ⟨_, _, hsearch, ?_, hagrees⟩
    rw [hagrees.hits, hlen]
    rfl
  · intro children hmem
    rw [windowOf, outermost_twoDeep] at hmem
    obtain rfl := List.mem_singleton.mp hmem
    exact List.cons_ne_nil _ _

/-- An element without children. -/
def childless : List XmlNode := [recordData []]

/-- Nothing is copied from an element without children, and then it is followed; and position
2^32 + 1 is taken for the first one. -/
theorem explain_not_agrees :
    (∃ f' res, explainSearch explains ⟨[], none, 0⟩ [] anyCql (.ok childless) =
        .explained f' res ∧ ¬ Agrees childless 1 1 f' res) ∧
    ∃ f' res, explainSearch explains ⟨[], none, 0⟩ [] anyCql (.ok twoDeep) =
        .explained f' res ∧ ¬ Agrees twoDeep 4294967297 1 f' res := by
  constructor
  · have hchildless : outermost childless = [[]] := by
      rw [childless, outermost_recordData, outermost]
    have hsearch : explainSearch explains ⟨[], none, 0⟩ [] anyCql (.ok childless) =
        .explained _ _ := rfl
    refine ⟨_, _, hsearch, fun hagrees => ?_⟩
    have hchildren := ((shown_iff hsearch (by rw [hchildless]; decide) (by decide)
      (by decide)).mp hagrees.shown).1 []
    rw [windowOf, hchildless] at hchildren
    exact hchildren (List.mem_singleton_self _) rfl
  · have hsearch : explainSearch explains ⟨[], none, 0⟩ [] anyCql (.ok twoDeep) =
        .explained _ _ := rfl
    refine ⟨_, _, hsearch, fun hagrees => ?_⟩
    have hstart := ((shown_iff hsearch (by rw [outermost_twoDeep]; decide) (by decide)
      (by decide)).mp hagrees.shown).2
    rw [outermost_twoDeep] at hstart
    exact absurd hstart (by decide)

end Zoom
end Metaproxy
