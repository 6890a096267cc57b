import Metaproxy.Lib.LastWins

/-!
# Zoom.TorusRecord

`parse_torus_record` of `filter_zoom.cpp`, which reads a target profile. It goes down into a `layer`
by moving the cursor of its loop to the first child, from which the loop then moves on to the second.

* `parseLoop_eq` — which elements are read.
* `foldl_marked_eq_iff` — when the others make no difference.
* `parseTorusRecord_complete_iff` — when they are all that matter.
-/

namespace Metaproxy
namespace Zoom
namespace TorusRecord

open Lib

/-! ## The code -/

inductive Node where
  | element (name : List Char) (children : List Node)
  | text (content : List Char)
  /-- A comment, a processing instruction or a CDATA section. -/
  | other

/-- `mp::xml::get_text` of an element. -/
def getText : List Node → List Char
  | [] => []
  | .text content :: ptr => content ++ getText ptr
  | .element _ _ :: ptr => getText ptr
  | .other :: ptr => getText ptr

/-- `mp::xml::get_bool` of an element. -/
def getBool (children : List Node) (defaultValue : Bool) : Bool :=
  match children with
  | .text content :: _ => content = "true".toList || content = "1".toList
  | _ => defaultValue

/-- The fields of `Searchable` that are the text of an element. -/
inductive Field where
  | authentication
  | authenticationMode
  | contentAuthentication
  | cfAuth
  | cfProxy
  | cfSubDB
  | contentConnector
  | udb
  | target
  | sru
  | sruVersion
  | queryEncoding
  | requestSyntax
  | elementSet
  | recordEncoding
  | transformXslFname
  | transformXslContent
  | urlRecipe
  | sortStrategy
  | extraArgs
  | rpn2cqlFname
  | retryOnFailure
  | noCproxy
deriving DecidableEq, Repr

/-- `cclItems` are the values and names that were given to `ccl_qual_fitem`. -/
structure Searchable where
  text : Field → List Char
  piggyback : Bool
  cfParam : List Char → Option (List Char)
  sortmap : List Char → Option (List Char)
  cclItems : List (List Char × List Char)

def Searchable.new : Searchable where
  text
    | .sortStrategy => "embed".toList
    | .retryOnFailure => "1".toList
    | _ => []
  piggyback := true
  cfParam _ := none
  sortmap _ := none
  cclItems := []

/-- The elements whose text is a field. -/
def textFields : List (String × Field) :=
  [("authentication", .authentication),
    ("authenticationMode", .authenticationMode),
    ("contentAuthentication", .contentAuthentication),
    ("cfAuth", .cfAuth),
    ("cfProxy", .cfProxy),
    ("cfSubDB", .cfSubDB),
    ("contentConnector", .contentConnector),
    ("udb", .udb),
    ("zurl", .target),
    ("sru", .sru),
    ("SRUVersion", .sruVersion),
    ("sruVersion", .sruVersion),
    ("queryEncoding", .queryEncoding),
    ("requestSyntax", .requestSyntax),
    ("elementSet", .elementSet),
    ("recordEncoding", .recordEncoding),
    ("transform", .transformXslFname),
    ("literalTransform", .transformXslContent),
    ("urlRecipe", .urlRecipe),
    ("sortStrategy", .sortStrategy),
    ("extraArgs", .extraArgs),
    ("rpn2cql", .rpn2cqlFname),
    ("retryOnFailure", .retryOnFailure),
    ("noCproxy", .noCproxy)]

/-- What an element sets, and what a later one replaces. -/
inductive Setting where
  | text (f : Field)
  | piggyback
  | cfParam (name : List Char)
  | sortmap (name : List Char)
deriving DecidableEq, Repr

inductive Recognised where
  | setting (k : Setting)
  | cclmap (name : List Char)
  | nothing
deriving DecidableEq, Repr

/-- The rest of a name after a prefix. -/
def after (start : String) (name : List Char) : Option (List Char) :=
  if start.toList.isPrefixOf name then some (name.drop start.toList.length) else none

def recognise (name : List Char) : Recognised :=
  match textFields.find? fun e => e.1.toList = name with
  | some e => .setting (.text e.2)
  | none =>
    if name = "piggyback".toList then .setting .piggyback
    else if name = "useTurboMarc".toList then .nothing
    else
      match after "cclmap_" name, after "sortmap_" name, after "cf_" name with
      | some qual, _, _ => .cclmap qual
      | none, some key, _ => .setting (.sortmap key)
      | none, none, some param => if param = [] then .nothing else .setting (.cfParam param)
      | none, none, none => .nothing

def Searchable.read (s : Searchable) (name : List Char) (children : List Node) : Searchable :=
  match recognise name with
  | .setting (.text f) => { s with text := Function.update s.text f (getText children) }
  | .setting .piggyback => { s with piggyback := getBool children true }
  | .setting (.cfParam param) =>
    { s with cfParam := Function.update s.cfParam param (some (getText children)) }
  | .setting (.sortmap key) =>
    { s with sortmap := Function.update s.sortmap key (some (getText children)) }
  | .cclmap qual =>
    let value := getText children
    if value = [] then s else { s with cclItems := s.cclItems ++ [(value, qual)] }
  | .nothing => s

/-- `none` when the next of a null pointer is taken. -/
def parseLoop (s : Searchable) : List Node → Option Searchable
  | [] => some s
  | .element name children :: ptr =>
    if name = "layer".toList then
      match children with
      | [] => none
      | _ :: rest => parseLoop s rest
    else parseLoop (s.read name children) ptr
  | .text _ :: ptr => parseLoop s ptr
  | .other :: ptr => parseLoop s ptr

/-- The children of a `record` element. -/
def parseTorusRecord (ptr : List Node) : Option Searchable := parseLoop .new ptr

/-! ## All elements -/

/-- A name and the children. -/
abbrev Element := List Char × List Node

/-- The elements of a record and of its layers, in document order. -/
def allElements : List Node → List Element
  | [] => []
  | .element name children :: ptr =>
    if name = "layer".toList then allElements children ++ allElements ptr
    else (name, children) :: allElements ptr
  | .text _ :: ptr => allElements ptr
  | .other :: ptr => allElements ptr
decreasing_by all_goals (simp only [List.cons.sizeOf_spec, Node.element.sizeOf_spec]; omega)

/-- What the record says, with a later element in the place of an earlier one. -/
def complete (ptr : List Node) : Searchable :=
  (allElements ptr).foldl (fun s e => s.read e.1 e.2) .new

/-- The same elements, with those marked that are read. The first child of a layer is passed over,
and so is what comes after the layer. -/
def marked (reads : Bool) : List Node → List (Element × Bool)
  | [] => []
  | .element name children :: ptr =>
    if name = "layer".toList then
      (match children with
      | [] => []
      | first :: rest => marked false [first] ++ marked reads rest) ++ marked false ptr
    else ((name, children), reads) :: marked reads ptr
  | .text _ :: ptr => marked reads ptr
  | .other :: ptr => marked reads ptr

/-- A layer without children is come to. -/
def comesToEmpty : List Node → Bool
  | [] => false
  | .element name children :: ptr =>
    if name = "layer".toList then
      match children with
      | [] => true
      | _ :: rest => comesToEmpty rest
    else comesToEmpty ptr
  | .text _ :: ptr => comesToEmpty ptr
  | .other :: ptr => comesToEmpty ptr

/-! ## What is read -/

section Read

variable {s s' : Searchable} {ptr : List Node} {l : List (Element × Bool)} {reads : Bool}

def readMarked (s : Searchable) (x : Element × Bool) : Searchable := s.read x.1.1 x.1.2

theorem marked_empty : marked reads (.element "layer".toList [] :: ptr) = marked false ptr := by
  rw [marked, if_pos rfl]
  rfl

theorem marked_layer (first : Node) (rest : List Node) :
    marked reads (.element "layer".toList (first :: rest) :: ptr) =
      marked false [first] ++ marked reads rest ++ marked false ptr := by
  rw [marked, if_pos rfl]

theorem marked_element {name : List Char} (hname : ¬ name = "layer".toList)
    (children : List Node) : marked reads (.element name children :: ptr) =
      ((name, children), reads) :: marked reads ptr := by
  rw [marked.eq_def]
  exact if_neg hname

theorem eq_of_mem_marked {x : Element × Bool} (hx : x ∈ marked reads ptr) (h : reads = false) :
    x.2 = false := by
  induction reads, ptr using marked.induct with
  | case1 reads =>
    rw [marked] at hx
    cases hx
  | case2 reads children ptr ih ih' =>
    cases children with
    | nil =>
      rw [marked_empty] at hx
      exact ih' hx rfl
    | cons first rest =>
      rw [marked_layer, List.mem_append, List.mem_append] at hx
      rcases hx with (hx | hx) | hx
      · exact ih.1 hx rfl
      · exact ih.2 hx h
      · exact ih' hx rfl
  | case3 reads name children ptr hname ih =>
    rw [marked_element hname] at hx
    rcases List.mem_cons.mp hx with rfl | hx
    · exact h
    · exact ih hx h
  | case4 reads content ptr ih =>
    rw [marked] at hx
    exact ih hx h
  | case5 reads ptr ih =>
    rw [marked] at hx
    exact ih hx h

theorem filter_marked_false : (marked false ptr).filter Prod.snd = [] := by
  rw [List.filter_eq_nil_iff]
  intro x hx
  rw [eq_of_mem_marked hx rfl]
  exact Bool.false_ne_true

theorem allElements_cons (node : Node) (ptr : List Node) :
    allElements (node :: ptr) = allElements [node] ++ allElements ptr := by
  cases node with
  | element name children =>
    rw [allElements, allElements, allElements]
    split
    · rw [List.append_nil]
    · rw [List.singleton_append]
  | text content => rw [allElements, allElements, allElements, List.nil_append]
  | other => rw [allElements, allElements, allElements, List.nil_append]

theorem map_fst_marked (reads : Bool) (ptr : List Node) :
    (marked reads ptr).map Prod.fst = allElements ptr := by
  induction reads, ptr using marked.induct with
  | case1 reads => rw [marked, allElements, List.map_nil]
  | case2 reads children ptr ih ih' =>
    rw [allElements, if_pos rfl]
    cases children with
    | nil => rw [marked_empty, allElements, List.nil_append, ih']
    | cons first rest =>
      rw [marked_layer, allElements_cons, List.map_append, List.map_append, ih.1, ih.2, ih']
  | case3 reads name children ptr hname ih =>
    rw [marked_element hname, allElements, if_neg hname, List.map_cons, ih]
  | case4 reads content ptr ih => rw [marked, allElements, ih]
  | case5 reads ptr ih => rw [marked, allElements, ih]

theorem parseLoop_eq : parseLoop s ptr = if comesToEmpty ptr then none
    else some (((marked true ptr).filter Prod.snd).foldl readMarked s) := by
  induction s, ptr using parseLoop.induct with
  | case1 s =>
    rw [parseLoop, comesToEmpty, if_neg Bool.false_ne_true, marked]
    rfl
  | case2 s ptr =>
    rw [parseLoop, if_pos rfl, comesToEmpty, if_pos rfl]
    rfl
  | case3 s ptr first rest ih =>
    rw [parseLoop, if_pos rfl, comesToEmpty, if_pos rfl, marked_layer, List.filter_append,
      List.filter_append, filter_marked_false, filter_marked_false, List.nil_append,
      List.append_nil]
    exact ih
  | case4 s name children ptr hname ih =>
    have hloop : parseLoop s (.element name children :: ptr) =
        parseLoop (s.read name children) ptr := by
      rw [parseLoop.eq_def]
      exact if_neg hname
    have hempty : comesToEmpty (.element name children :: ptr) = comesToEmpty ptr := by
      rw [comesToEmpty.eq_def]
      exact if_neg hname
    rw [hloop, hempty, marked_element hname, ih]
    rfl
  | case5 s content ptr ih => rw [parseLoop, comesToEmpty, marked, ih]
  | case6 s ptr ih => rw [parseLoop, comesToEmpty, marked, ih]

/-! ## What comes of it -/

/-- What an element gives to a setting. -/
inductive Value where
  | text (s : List Char)
  | flag (b : Bool)
  | entry (s : Option (List Char))

def Searchable.get (s : Searchable) : Setting → Value
  | .text f => .text (s.text f)
  | .piggyback => .flag s.piggyback
  | .cfParam name => .entry (s.cfParam name)
  | .sortmap name => .entry (s.sortmap name)

def setting (x : Element × Bool) : Option Setting :=
  match recognise x.1.1 with
  | .setting k => some k
  | _ => none

def value (x : Element × Bool) : Value :=
  match recognise x.1.1 with
  | .setting (.text _) => .text (getText x.1.2)
  | .setting .piggyback => .flag (getBool x.1.2 true)
  | _ => .entry (some (getText x.1.2))

/-- What is given to `ccl_qual_fitem`. -/
def cclItem (x : Element × Bool) : Option (List Char × List Char) :=
  match recognise x.1.1 with
  | .cclmap qual => if getText x.1.2 = [] then none else some (getText x.1.2, qual)
  | _ => none

theorem searchable_ext (hget : s.get = s'.get) (hccl : s.cclItems = s'.cclItems) : s = s' := by
  have htext : s.text = s'.text := funext fun f => Value.text.inj (congrFun hget (.text f))
  have hpiggyback : s.piggyback = s'.piggyback := Value.flag.inj (congrFun hget .piggyback)
  have hparam : s.cfParam = s'.cfParam :=
    funext fun name => Value.entry.inj (congrFun hget (.cfParam name))
  have hsort : s.sortmap = s'.sortmap :=
    funext fun name => Value.entry.inj (congrFun hget (.sortmap name))
  cases s
  cases s'
  simp only at htext hpiggyback hparam hsort hccl
  rw [htext, hpiggyback, hparam, hsort, hccl]

theorem get_eq_update {k : Setting} {v : Value} (hself : s'.get k = v)
    (hother : ∀ k', k' ≠ k → s'.get k' = s.get k') : s'.get = Function.update s.get k v := by
  funext k'
  by_cases h : k' = k
  · rw [h, Function.update_self, hself]
  · rw [Function.update_of_ne h, hother k' h]

theorem get_readMarked (s : Searchable) (x : Element × Bool) :
    (readMarked s x).get = give setting value s.get x := by
  rw [readMarked, Searchable.read, give, setting, value]
  cases recognise x.1.1 with
  | nothing => rfl
  | cclmap qual =>
    simp only
    split <;> rfl
  | setting k =>
    cases k with
    | text f =>
      refine get_eq_update (congrArg Value.text (Function.update_self ..)) fun k' hk' => ?_
      cases k' with
      | text f' =>
        refine congrArg Value.text (Function.update_of_ne ?_ _ _)
        rintro rfl
        exact hk' rfl
      | _ => rfl
    | piggyback =>
      refine get_eq_update rfl fun k' hk' => ?_
      cases k' with
      | piggyback => exact absurd rfl hk'
      | _ => rfl
    | cfParam name =>
      refine get_eq_update (congrArg Value.entry (Function.update_self ..)) fun k' hk' => ?_
      cases k' with
      | cfParam name' =>
        refine congrArg Value.entry (Function.update_of_ne ?_ _ _)
        rintro rfl
        exact hk' rfl
      | _ => rfl
    | sortmap name =>
      refine get_eq_update (congrArg Value.entry (Function.update_self ..)) fun k' hk' => ?_
      cases k' with
      | sortmap name' =>
        refine congrArg Value.entry (Function.update_of_ne ?_ _ _)
        rintro rfl
        exact hk' rfl
      | _ => rfl

theorem cclItems_readMarked (s : Searchable) (x : Element × Bool) :
    (readMarked s x).cclItems = s.cclItems ++ (cclItem x).toList := by
  rw [readMarked, Searchable.read, cclItem]
  cases recognise x.1.1 with
  | nothing => exact (List.append_nil _).symm
  | cclmap qual =>
    simp only
    split
    · exact (List.append_nil _).symm
    · rfl
  | setting k => cases k <;> exact (List.append_nil _).symm

theorem get_foldl (s : Searchable) (l : List (Element × Bool)) :
    (l.foldl readMarked s).get = l.foldl (give setting value) s.get := by
  induction l generalizing s with
  | nil => rfl
  | cons x l ih => rw [List.foldl_cons, List.foldl_cons, ih, get_readMarked]

theorem cclItems_foldl (s : Searchable) (l : List (Element × Bool)) :
    (l.foldl readMarked s).cclItems = s.cclItems ++ l.filterMap cclItem := by
  induction l generalizing s with
  | nil => exact (List.append_nil _).symm
  | cons x l ih =>
    rw [List.foldl_cons, ih, cclItems_readMarked, List.filterMap_cons, List.append_assoc]
    cases cclItem x <;> rfl

theorem filterMap_filter_eq_iff {α β : Type*} {p : α → Bool} {f : α → Option β} {l : List α} :
    (l.filter p).filterMap f = l.filterMap f ↔ ∀ x ∈ l, p x = false → f x = none := by
  induction l with
  | nil => exact iff_of_true rfl fun x hx => by cases hx
  | cons x l ih =>
    rw [List.forall_mem_cons, ← ih, List.filter_cons]
    cases hp : p x with
    | true =>
      rw [if_pos rfl, List.filterMap_cons, List.filterMap_cons]
      cases f x <;> simp
    | false =>
      rw [if_neg Bool.false_ne_true, List.filterMap_cons]
      cases hf : f x with
      | none => simp
      | some y =>
        have hle := (List.filter_sublist (p := p) (l := l)).filterMap f |>.length_le
        refine iff_of_false (fun h => ?_) fun h => by cases h.1 rfl
        have hlen := congrArg List.length h
        rw [List.length_cons] at hlen
        omega

theorem complete_eq (ptr : List Node) : complete ptr = (marked true ptr).foldl readMarked .new := by
  rw [complete, ← map_fst_marked true, List.foldl_map]
  rfl

end Read

/-! ## All that matters -/

/-- The elements that are passed over make no difference: each `cclmap_` element among them is
empty, and where one is the last to give a setting, it gives the value of the last one that is read,
or the one at the start. -/
structure PassesOver (ptr : List Node) : Prop where
  ccl : ∀ x ∈ marked true ptr, x.2 = false → cclItem x = none
  settings : ∀ k x, lastOf setting k (marked true ptr) = some x → x.2 = true ∨
    value x = lastValue setting value k ((marked true ptr).filter Prod.snd) (Searchable.new.get k)

theorem foldl_marked_eq_iff (ptr : List Node) :
    ((marked true ptr).filter Prod.snd).foldl readMarked .new = complete ptr ↔ PassesOver ptr := by
  rw [complete_eq]
  constructor
  · intro h
    have hget := congrArg Searchable.get h
    have hccl := congrArg Searchable.cclItems h
    rw [get_foldl, get_foldl, foldl_filter_eq_iff] at hget
    rw [cclItems_foldl, cclItems_foldl, List.append_cancel_left_eq,
      filterMap_filter_eq_iff] at hccl
    exact ⟨hccl, hget⟩
  · rintro ⟨hccl, hsettings⟩
    refine searchable_ext ?_ ?_
    · rw [get_foldl, get_foldl, foldl_filter_eq_iff]
      exact hsettings
    · rw [cclItems_foldl, cclItems_foldl, filterMap_filter_eq_iff.mpr hccl]

/-- For every record: it is read without following a null pointer, and completely, if and only if no
empty layer is come to and the elements that are passed over make no difference. -/
theorem parseTorusRecord_complete_iff (ptr : List Node) :
    parseTorusRecord ptr = some (complete ptr) ↔ comesToEmpty ptr = false ∧ PassesOver ptr := by
  rw [parseTorusRecord, parseLoop_eq, ← foldl_marked_eq_iff]
  cases comesToEmpty ptr with
  | true => exact iff_of_false (fun h => by cases h) fun h => by cases h.1
  | false =>
    rw [if_neg Bool.false_ne_true, Option.some.injEq]
    exact (and_iff_right rfl).symm

/-! ## Layers -/

def layer (children : List Node) : Node := .element "layer".toList children

def udb (name : String) : Node := .element "udb".toList [.text name.toList]

theorem parseTorusRecord_layer (first : Node) (rest ptr : List Node) :
    parseTorusRecord (layer (first :: rest) :: ptr) = parseTorusRecord rest := by
  rw [parseTorusRecord, layer, parseLoop, if_pos rfl, parseTorusRecord]

theorem complete_of_udb {ptr : List Node} {name : String}
    (h : allElements ptr = [("udb".toList, [.text name.toList])]) :
    (complete ptr).text .udb = name.toList := by
  rw [complete, h]
  exact List.append_nil _

theorem allElements_udb (name : String) :
    allElements [udb name] = [("udb".toList, [.text name.toList])] := by
  have hname : ¬ "udb".toList = "layer".toList := by decide
  rw [udb, allElements, if_neg hname, allElements]

/-- A null pointer is followed after an empty layer; and the only element is lost, as the first child
of a layer and behind one. -/
theorem parseTorusRecord_not_complete :
    parseTorusRecord [layer []] = none ∧
    (parseTorusRecord [layer [udb "a"]] = some .new ∧
      (complete [layer [udb "a"]]).text .udb = "a".toList) ∧
    parseTorusRecord [layer [.other], udb "a"] = some .new ∧
      (complete [layer [.other], udb "a"]).text .udb = "a".toList := by
  refine ⟨?_, ⟨?_, complete_of_udb ?_⟩, ?_, complete_of_udb ?_⟩
  · rw [parseTorusRecord, layer, parseLoop, if_pos rfl]
  · rw [parseTorusRecord_layer, parseTorusRecord, parseLoop]
  · rw [layer, allElements, if_pos rfl, allElements_udb, allElements, List.append_nil]
  · rw [parseTorusRecord_layer, parseTorusRecord, parseLoop]
  · rw [layer, allElements, if_pos rfl, allElements_udb, allElements, allElements, List.nil_append]

end TorusRecord
end Zoom
end Metaproxy
