import Mathlib.Data.List.Infix
import Metaproxy.Lib.Cut
import Metaproxy.Lib.Outcome

/-!
# UrlRecipe

`url_recipe.cpp`: URLs from the metadata of a record. `${name}` and `%{name}` stand for the text of
the metadata with that type, the second one encoded; `md-` may come before the name.

`substitutes_iff`: when each reference is replaced so. The prefix is taken to be there whenever a
name begins with one of its characters.
-/

namespace Metaproxy
namespace UrlRecipe

open Lib

/-- `_xmlAttr`, with the content of its first child. -/
structure Attr where
  name : String
  children : Option (List Char)
deriving DecidableEq, Repr

/-- A child of the root element; `text` is `get_text`. -/
inductive Node where
  | element (name : String) (properties : List Attr) (text : List Char)
  | other
deriving DecidableEq, Repr

inductive Fault where
  /-- A read behind the end of the name. -/
  | beyondName
  /-- The exception of a pattern that is no regular expression. -/
  | badRegex
deriving DecidableEq, Repr

/-- `boost::regex` and `yaz_encode_uri_component`. -/
structure Env where
  regexReplace : (icase global : Bool) → (pattern replacement text : List Char) →
    Except Fault (List Char)
  encodeUri : Char → List Char

/-! ## The scanner -/

/-- `step` is 0 in the name, 1 in the pattern, 2 in the replacement, 3 in the mode, 4 behind
these and 5 at the end. -/
structure Scan where
  step : Nat
  var : List Char
  pattern : List Char
  replacement : List Char
  mode : List Char
  cPrev : Char
deriving DecidableEq, Repr

def Scan.new : Scan := ⟨0, [], [], [], [], '\x00'⟩

def Scan.next (s : Scan) (c : Char) : Scan :=
  let cCheck := if s.cPrev = '\\' then '\x00' else c
  let s' :=
    if cCheck = '}' then { s with step := 5 }
    else if s.step = 0 then
      if cCheck = '[' then { s with step := 1 } else { s with var := s.var ++ [c] }
    else if cCheck = ']' then { s with step := 4 }
    else if s.step = 1 then
      if cCheck = '/' then { s with step := 2 } else { s with pattern := s.pattern ++ [c] }
    else if s.step = 2 then
      if cCheck = '/' then { s with step := 3 } else { s with replacement := s.replacement ++ [c] }
    else if s.step = 3 then { s with mode := s.mode ++ [c] }
    else s
  { s' with cPrev := c }

/-- The inner loop, and where it stops. Every index comes with its bound. -/
def scanReference (recipe : List Char) (p0 : Nat) (s : Scan) : Scan × Nat :=
  if h : p0 < recipe.length then
    if s.step < 5 then scanReference recipe (p0 + 1) (s.next recipe[p0]) else (s, p0)
  else (s, p0)
termination_by recipe.length - p0
decreasing_by omega

/-! ## The lookup -/

/-- `strcmp` with `variable.c_str() + offset`. -/
def sameType (var : List Char) (offset : Nat) (content : List Char) : Except Fault Bool :=
  if offset ≤ var.length then .ok (content = cString (var.drop offset))
  else .error .beyondName

/-- The loop over the attributes of an element. -/
def hasType (var : List Char) (offset : Nat) : List Attr → Except Fault Bool
  | [] => .ok false
  | attr :: next =>
    if attr.name = "type" then
      match attr.children with
      | none => hasType var offset next
      | some content =>
        match sameType var offset content with
        | .error e => .error e
        | .ok true => .ok true
        | .ok false => hasType var offset next
    else hasType var offset next

/-- The loop over the elements. -/
def lookup (var : List Char) (offset : Nat) : List Node → List Char → Except Fault (List Char)
  | [], text => .ok text
  | .other :: next, text => lookup var offset next text
  | .element name properties content :: next, text =>
    if name = "metadata" then
      match hasType var offset properties with
      | .error e => .error e
      | .ok found => lookup var offset next (if found then content else text)
    else lookup var offset next text

/-- `find_first_of` looks for any of the characters. -/
def offsetOf (var : List Char) : Nat :=
  if var.findIdx? (· ∈ "md-".toList) = some 0 then 3 else 0

/-- What is appended for a reference. -/
def Scan.emit (env : Env) (nodes : List Node) (uriEncode : Bool) (s : Scan) :
    Except Fault (List Char) :=
  if s.var.length = 0 then .ok []
  else
    match lookup s.var (offsetOf s.var) nodes [] with
    | .error e => .error e
    | .ok text =>
      match (if s.pattern.length > 0 then
          env.regexReplace (s.mode.contains 'i') (s.mode.contains 'g') s.pattern s.replacement text
        else .ok text) with
      | .error e => .error e
      | .ok text => .ok (if uriEncode then text.flatMap env.encodeUri else text)

/-! ## The recipe -/

/-- The character `c` and a brace. -/
def opens (recipe : List Char) (p0 : Nat) (c : Char) : Bool :=
  if h : p0 + 1 < recipe.length then recipe[p0] = c && recipe[p0 + 1] = '{' else false

theorem le_scanReference (recipe : List Char) (p0 : Nat) (s : Scan) :
    p0 ≤ (scanReference recipe p0 s).2 := by
  induction p0, s using scanReference.induct recipe with
  | case1 p0 s h hstep ih =>
    rw [scanReference, dif_pos h, if_pos hstep]
    omega
  | case2 p0 s h hstep => rw [scanReference, dif_pos h, if_neg hstep]
  | case3 p0 s h => rw [scanReference, dif_neg h]

/-- What each round of the outer loop appends, from `p0` on. -/
def rounds (env : Env) (nodes : List Node) (recipe : List Char) (p0 : Nat) :
    Except Fault (List (List Char)) :=
  if h : p0 < recipe.length then
    if opens recipe p0 '%' || opens recipe p0 '$' then
      match (scanReference recipe (p0 + 2) Scan.new).1.emit env nodes (opens recipe p0 '%') with
      | .error e => .error e
      | .ok text =>
        (rounds env nodes recipe (scanReference recipe (p0 + 2) Scan.new).2).map (text :: ·)
    else (rounds env nodes recipe (p0 + 1)).map ([recipe[p0]] :: ·)
  else .ok []
termination_by recipe.length - p0
decreasing_by
  · have := le_scanReference recipe (p0 + 2) Scan.new
    omega
  · omega

/-- `nodes` are the children of the root element. -/
def urlRecipeHandle (env : Env) (nodes : List Node) (recipe : List Char) :
    Except Fault (List Char) :=
  (rounds env nodes recipe 0).map List.flatten

/-! ## What a recipe stands for -/

/-- A metadata element of the type `name`. -/
def Node.isOf (name : List Char) : Node → Bool
  | .element elem properties _ =>
    elem = "metadata" && properties.any fun attr => attr.name = "type" && attr.children = some name
  | .other => false

/-- A metadata element of any type. -/
def Node.isTyped : Node → Bool
  | .element elem properties _ =>
    elem = "metadata" && properties.any fun attr => attr.name = "type" && attr.children.isSome
  | .other => false

def Node.text : Node → List Char
  | .element _ _ text => text
  | .other => []

/-- The text of the last metadata element of the type `name`, empty if there is none. -/
def textOf (nodes : List Node) (name : List Char) : List Char :=
  ((nodes.filter (Node.isOf name)).getLast?.map Node.text).getD []

def isNameChar (c : Char) : Bool := c.isAlphanum || c = '_' || c = '-'

structure Ref where
  uriEncode : Bool
  /-- The name is written with `md-` before it. -/
  md : Bool
  name : List Char
  name_ne : name ≠ []
  name_chars : name.all isNameChar = true
  not_md : ¬ "md-".toList <+: name

/-- What is written between the braces. -/
def Ref.var (r : Ref) : List Char := if r.md then "md-".toList ++ r.name else r.name

def Ref.text (r : Ref) : List Char :=
  (if r.uriEncode then '%' else '$') :: '{' :: (r.var ++ ['}'])

def Ref.encoded (env : Env) (r : Ref) (text : List Char) : List Char :=
  if r.uriEncode then text.flatMap env.encodeUri else text

/-- Text without a reference in it. -/
structure Literal where
  text : List Char
  no_dollar : ¬ ['$', '{'] <:+: text
  no_percent : ¬ ['%', '{'] <:+: text

structure Recipe where
  parts : List (Literal × Ref)
  tail : Literal

def Recipe.text (r : Recipe) : List Char :=
  r.parts.flatMap (fun part => part.1.text ++ part.2.text) ++ r.tail.text

/-- The characters of the literals and the texts of the references, in their order. -/
def Recipe.replaced (env : Env) (nodes : List Node) (r : Recipe) : List (List Char) :=
  r.parts.flatMap (fun part => part.1.text.map ([·]) ++
    [part.2.encoded env (textOf nodes part.2.name)]) ++ r.tail.text.map ([·])

/-- Nothing is taken off the name, or it makes no difference. -/
def Ref.Found (env : Env) (nodes : List Node) (r : Ref) : Prop :=
  r.md = true ∨ (∀ c ∈ r.name.head?, c ∉ "md-".toList) ∨ nodes.any Node.isTyped = false ∨
    (3 ≤ r.name.length ∧
      r.encoded env (textOf nodes (r.name.drop 3)) = r.encoded env (textOf nodes r.name))

/-! ## The lookup finds the last element -/

theorem hasType_le {var : List Char} {offset : Nat} (h : offset ≤ var.length)
    (properties : List Attr) :
    hasType var offset properties = .ok (properties.any fun attr =>
      attr.name = "type" && attr.children = some (cString (var.drop offset))) := by
  induction properties with
  | nil => rfl
  | cons attr next ih =>
    rw [hasType, List.any_cons, ih]
    by_cases hname : attr.name = "type"
    · cases hchildren : attr.children with
      | none => simp [hname]
      | some content =>
        by_cases hcontent : content = cString (var.drop offset)
        · simp [hname, sameType, h, hcontent]
        · simp [hname, sameType, h, hcontent]
    · simp [hname]

theorem hasType_gt {var : List Char} {offset : Nat} (h : var.length < offset)
    (properties : List Attr) :
    hasType var offset properties =
      if properties.any fun attr => attr.name = "type" && attr.children.isSome then
        .error .beyondName
      else .ok false := by
  induction properties with
  | nil => rfl
  | cons attr next ih =>
    rw [hasType, List.any_cons, ih]
    by_cases hname : attr.name = "type"
    · cases hchildren : attr.children with
      | none => simp [hname]
      | some content => simp [hname, sameType, Nat.not_le_of_lt h]
    · simp [hname]

theorem lookup_le {var : List Char} {offset : Nat} (h : offset ≤ var.length) (nodes : List Node)
    (text : List Char) :
    lookup var offset nodes text =
      .ok (((nodes.filter (Node.isOf (cString (var.drop offset)))).getLast?.map Node.text).getD
        text) := by
  induction nodes generalizing text with
  | nil => rfl
  | cons node next ih =>
    cases node with
    | other => rw [lookup, ih, List.filter_cons_of_neg (by simp [Node.isOf])]
    | element name properties content =>
      rw [lookup]
      by_cases hname : name = "metadata"
      · rw [if_pos hname, hasType_le h]
        simp only
        rw [ih]
        cases hany : properties.any fun attr =>
            attr.name = "type" && attr.children = some (cString (var.drop offset)) with
        | true =>
          rw [List.filter_cons_of_pos (by simp [Node.isOf, hname, hany]), List.getLast?_cons]
          cases (next.filter (Node.isOf (cString (var.drop offset)))).getLast? <;> rfl
        | false =>
          rw [List.filter_cons_of_neg (by simp [Node.isOf, hany])]
          rfl
      · rw [if_neg hname, ih, List.filter_cons_of_neg (by simp [Node.isOf, hname])]

theorem lookup_gt {var : List Char} {offset : Nat} (h : var.length < offset) (nodes : List Node)
    (text : List Char) :
    lookup var offset nodes text =
      if nodes.any Node.isTyped then .error .beyondName else .ok text := by
  induction nodes generalizing text with
  | nil => rfl
  | cons node next ih =>
    cases node with
    | other => rw [lookup, ih, List.any_cons, Node.isTyped, Bool.false_or]
    | element name properties content =>
      rw [lookup, List.any_cons, Node.isTyped]
      by_cases hname : name = "metadata"
      · rw [if_pos hname, hasType_gt h]
        cases hany : properties.any fun attr => attr.name = "type" && attr.children.isSome with
        | true => simp [hname]
        | false =>
          simp only [hname, decide_true, Bool.true_and, Bool.false_or, Bool.false_eq_true, if_false]
          exact ih text
      · rw [if_neg hname, ih]
        simp [hname]

theorem textOf_untyped {nodes : List Node} (h : nodes.any Node.isTyped = false)
    (name : List Char) : textOf nodes name = [] := by
  have hnone : nodes.filter (Node.isOf name) = [] := by
    refine List.filter_eq_nil_iff.mpr fun node hnode hof => ?_
    have htyped := List.any_eq_false.mp h node hnode
    cases node with
    | other => cases hof
    | element elem properties text =>
      simp only [Node.isOf, Node.isTyped, Bool.and_eq_true, List.any_eq_true, decide_eq_true_eq]
        at hof htyped
      obtain ⟨helem, attr, hattr, htype, hchildren⟩ := hof
      exact htyped ⟨helem, attr, hattr, htype, by rw [hchildren]; rfl⟩
  rw [textOf, hnone]
  rfl

/-! ## One reference -/

theorem isNameChar_spec {c : Char} (h : isNameChar c = true) :
    c ≠ '}' ∧ c ≠ '[' ∧ c ≠ '\\' ∧ c ≠ '\x00' := by
  refine ⟨?_, ?_, ?_, ?_⟩ <;>
  · rintro rfl
    revert h
    decide

theorem Ref.isNameChar_of_mem (r : Ref) : ∀ c ∈ r.name, isNameChar c = true :=
  List.all_eq_true.mp r.name_chars

theorem Ref.isNameChar_of_mem_var (r : Ref) : ∀ c ∈ r.var, isNameChar c = true := by
  intro c hc
  rw [var] at hc
  split at hc
  · rcases List.mem_append.mp hc with hc | hc
    · have hmd : "md-".toList.all isNameChar = true := rfl
      exact List.all_eq_true.mp hmd c hc
    · exact r.isNameChar_of_mem c hc
  · exact r.isNameChar_of_mem c hc

theorem Ref.var_ne (r : Ref) : r.var ≠ [] := by
  rw [var]
  split
  · exact fun h => r.name_ne (List.append_eq_nil_iff.mp h).2
  · exact r.name_ne

/-- What has been scanned when a reference ends. -/
def scanned (var : List Char) : Scan := ⟨5, var, [], [], [], '}'⟩

theorem offsetOf_cons (c : Char) (cs : List Char) :
    offsetOf (c :: cs) = if c ∈ "md-".toList then 3 else 0 := by
  rw [offsetOf, List.findIdx?_cons]
  by_cases h : c ∈ "md-".toList
  · rw [if_pos h, if_pos (by rw [decide_eq_true h]; rfl)]
  · rw [if_neg h, decide_eq_false h]
    cases cs.findIdx? (· ∈ "md-".toList) <;> simp

theorem emit_scanned (env : Env) (nodes : List Node) (uriEncode : Bool) {var : List Char}
    (hvar : var ≠ []) :
    (scanned var).emit env nodes uriEncode =
      (lookup var (offsetOf var) nodes []).map fun text =>
        if uriEncode then text.flatMap env.encodeUri else text := by
  have hlen : ¬ (scanned var).var.length = 0 := fun h => hvar (List.eq_nil_of_length_eq_zero h)
  have hfound : (scanned var).var = var := rfl
  rw [Scan.emit, if_neg hlen, hfound]
  cases lookup var (offsetOf var) nodes [] <;> rfl

theorem lookup_textOf {var : List Char} {offset : Nat} (hchars : ∀ c ∈ var, isNameChar c = true)
    (h : offset ≤ var.length) (nodes : List Node) :
    lookup var offset nodes [] = .ok (textOf nodes (var.drop offset)) := by
  have hnul : '\x00' ∉ var.drop offset := fun hmem =>
    (isNameChar_spec (hchars _ (List.mem_of_mem_drop hmem))).2.2.2 rfl
  rw [lookup_le h, cString_eq hnul]
  rfl

/-- One reference is replaced by the text of its name exactly when it is found. -/
theorem emit_iff (env : Env) (nodes : List Node) (r : Ref) :
    (scanned r.var).emit env nodes r.uriEncode = .ok (r.encoded env (textOf nodes r.name)) ↔
      r.Found env nodes := by
  rw [emit_scanned env nodes r.uriEncode r.var_ne, Ref.Found]
  cases hmd : r.md with
  | true =>
    have hvar : r.var = "md-".toList ++ r.name := by rw [Ref.var, hmd, if_pos rfl]
    have hoffset : offsetOf r.var = 3 := by
      rw [hvar]
      exact (offsetOf_cons 'm' _).trans (if_pos (by decide))
    have hdrop : r.var.drop 3 = r.name := by rw [hvar]; rfl
    rw [hoffset, lookup_textOf r.isNameChar_of_mem_var (by rw [hvar]; simp), hdrop]
    exact iff_of_true rfl (.inl rfl)
  | false =>
    have hvar : r.var = r.name := by rw [Ref.var, hmd]; rfl
    rw [hvar, or_iff_right (by simp)]
    obtain ⟨c, cs, hname⟩ := List.exists_cons_of_ne_nil r.name_ne
    have hhead : (∀ c ∈ r.name.head?, c ∉ "md-".toList) ↔ c ∉ "md-".toList := by
      rw [hname]
      simp
    have hoffset : offsetOf r.name = if c ∈ "md-".toList then 3 else 0 := by
      rw [hname, offsetOf_cons]
    rw [hhead, hoffset]
    by_cases hc : c ∈ "md-".toList
    · rw [if_pos hc, or_iff_right (not_not_intro hc)]
      by_cases hlen : 3 ≤ r.name.length
      · rw [lookup_textOf r.isNameChar_of_mem hlen]
        have hemit : (Except.ok (textOf nodes (r.name.drop 3)) : Except Fault _).map
            (fun text => if r.uriEncode then text.flatMap env.encodeUri else text) =
              .ok (r.encoded env (textOf nodes (r.name.drop 3))) := rfl
        rw [hemit, Except.ok.injEq]
        constructor
        · exact fun h => .inr ⟨hlen, h⟩
        · rintro (h | h)
          · rw [textOf_untyped h, textOf_untyped h]
          · exact h.2
      · rw [lookup_gt (by omega), or_iff_left fun h => hlen h.1]
        cases hany : nodes.any Node.isTyped with
        | true => exact iff_of_false (fun h => by cases h) (fun h => by cases h)
        | false =>
          rw [textOf_untyped hany]
          exact iff_of_true rfl rfl
    · rw [if_neg hc, lookup_textOf r.isNameChar_of_mem (Nat.zero_le _)]
      exact iff_of_true rfl (.inl hc)

/-! ## The scanner along the recipe -/

section Scanner

variable {recipe rest : List Char} {p0 : Nat} {c : Char}

theorem drop_cons (h : recipe.drop p0 = c :: rest) :
    ∃ hp : p0 < recipe.length, recipe[p0] = c ∧ recipe.drop (p0 + 1) = rest := by
  have hp : p0 < recipe.length := by
    by_contra hge
    rw [List.drop_eq_nil_of_le (by omega)] at h
    cases h
  rw [List.drop_eq_getElem_cons hp] at h
  exact ⟨hp, List.cons.inj h⟩

theorem opens_eq (h : recipe.drop p0 = c :: rest) (o : Char) :
    opens recipe p0 o = (c = o && rest.head? = some '{') := by
  obtain ⟨hp, hc, hrest⟩ := drop_cons h
  cases rest with
  | nil =>
    have hlen : recipe.length ≤ p0 + 1 := List.drop_eq_nil_iff.mp hrest
    rw [opens, dif_neg (by omega)]
    simp
  | cons c' rest =>
    obtain ⟨hp', hc', -⟩ := drop_cons hrest
    rw [opens, dif_pos hp', hc, hc']
    simp

theorem scanReference_name {s : Scan} {name : List Char} (hchars : ∀ c ∈ name, isNameChar c = true)
    (h : recipe.drop p0 = name ++ '}' :: rest) (hstep : s.step = 0) (hprev : s.cPrev ≠ '\\') :
    scanReference recipe p0 s =
      ({ s with step := 5, var := s.var ++ name, cPrev := '}' }, p0 + name.length + 1) := by
  induction name generalizing p0 s with
  | nil =>
    obtain ⟨hp, hc, -⟩ := drop_cons h
    have hnext : s.next '}' = { s with step := 5, cPrev := '}' } := by simp [Scan.next, hprev]
    rw [scanReference, dif_pos hp, if_pos (by omega), hc, hnext, scanReference]
    split <;> simp
  | cons c name ih =>
    obtain ⟨hp, hc, hrest⟩ := drop_cons h
    obtain ⟨hclose, hopen, hescape, -⟩ := isNameChar_spec (hchars c List.mem_cons_self)
    have hnext : s.next c = { s with var := s.var ++ [c], cPrev := c } := by
      simp [Scan.next, hprev, hclose, hopen, hstep]
    rw [scanReference, dif_pos hp, if_pos (by omega), hc, hnext,
      ih (s := { s with var := s.var ++ [c], cPrev := c })
        (fun c hc => hchars c (List.mem_cons_of_mem _ hc)) hrest hstep hescape]
    simp only [List.append_assoc, List.singleton_append, List.length_cons]
    rw [show p0 + 1 + name.length + 1 = p0 + (name.length + 1) + 1 by omega]

variable (env : Env) (nodes : List Node)

theorem rounds_end (h : recipe.drop p0 = []) : rounds env nodes recipe p0 = .ok [] := by
  have hlen := List.drop_eq_nil_iff.mp h
  rw [rounds, dif_neg (by omega)]

/-- A character that opens no reference. -/
theorem rounds_char (h : recipe.drop p0 = c :: rest)
    (hopens : ¬ ((c = '%' ∨ c = '$') ∧ rest.head? = some '{')) :
    rounds env nodes recipe p0 = (rounds env nodes recipe (p0 + 1)).map ([c] :: ·) := by
  obtain ⟨hp, hc, -⟩ := drop_cons h
  have hno : ¬ (opens recipe p0 '%' || opens recipe p0 '$') = true := by
    intro hyes
    rw [opens_eq h, opens_eq h] at hyes
    simp only [Bool.or_eq_true, Bool.and_eq_true, decide_eq_true_eq, ← or_and_right] at hyes
    exact hopens hyes
  rw [rounds, dif_pos hp, if_neg hno, hc]

theorem rounds_literal {lit : List Char} (hdollar : ¬ ['$', '{'] <:+: lit)
    (hpercent : ¬ ['%', '{'] <:+: lit) (hrest : rest.head? ≠ some '{')
    (h : recipe.drop p0 = lit ++ rest) :
    rounds env nodes recipe p0 =
      (rounds env nodes recipe (p0 + lit.length)).map (lit.map ([·]) ++ ·) := by
  induction lit generalizing p0 with
  | nil =>
    simp only [List.length_nil, Nat.add_zero, List.map_nil, List.nil_append]
    cases rounds env nodes recipe p0 <;> rfl
  | cons c lit ih =>
    have hsuffix : lit <:+: c :: lit := (List.suffix_cons c lit).isInfix
    have hopens : ¬ ((c = '%' ∨ c = '$') ∧ (lit ++ rest).head? = some '{') := by
      rintro ⟨hc, hbrace⟩
      cases lit with
      | nil => exact hrest hbrace
      | cons c' lit =>
        cases hbrace
        rcases hc with rfl | rfl
        · exact hpercent ⟨[], lit, rfl⟩
        · exact hdollar ⟨[], lit, rfl⟩
    obtain ⟨-, -, hnext⟩ := drop_cons h
    rw [rounds_char env nodes h hopens, ih (fun hin => hdollar (hin.trans hsuffix))
      (fun hin => hpercent (hin.trans hsuffix)) hnext, List.length_cons,
      show p0 + 1 + lit.length = p0 + (lit.length + 1) by omega]
    cases rounds env nodes recipe (p0 + (lit.length + 1)) <;> rfl

theorem rounds_ref (r : Ref) (h : recipe.drop p0 = r.text ++ rest) :
    rounds env nodes recipe p0 =
      match (scanned r.var).emit env nodes r.uriEncode with
      | .error e => .error e
      | .ok text => (rounds env nodes recipe (p0 + r.text.length)).map (text :: ·) := by
  have hcons : recipe.drop p0 =
      (if r.uriEncode then '%' else '$') :: '{' :: (r.var ++ '}' :: rest) := by
    rw [h, Ref.text]
    simp
  obtain ⟨hp, -, hbrace⟩ := drop_cons hcons
  obtain ⟨-, -, hname⟩ := drop_cons hbrace
  have hscan := scanReference_name (s := Scan.new) r.isNameChar_of_mem_var hname rfl (by decide)
  have hscanned : scanReference recipe (p0 + 2) Scan.new =
      (scanned r.var, p0 + r.text.length) := by
    rw [hscan, Ref.text]
    simp only [List.length_cons, List.length_append, List.length_nil]
    rw [show p0 + 1 + 1 + r.var.length + 1 = p0 + (r.var.length + (0 + 1) + 1 + 1) by omega]
    rfl
  have hpercent : opens recipe p0 '%' = r.uriEncode := by
    rw [opens_eq hcons]
    cases r.uriEncode <;> rfl
  have hopens : (opens recipe p0 '%' || opens recipe p0 '$') = true := by
    rw [opens_eq hcons, opens_eq hcons]
    cases r.uriEncode <;> rfl
  rw [rounds, dif_pos hp, if_pos hopens, hpercent, hscanned]

end Scanner

/-! ## The recipe as a whole -/

theorem rounds_parts_iff (env : Env) (nodes : List Node) (tail : Literal)
    {recipe : List Char} {p0 : Nat} (parts : List (Literal × Ref))
    (h : recipe.drop p0 = (Recipe.mk parts tail).text) :
    rounds env nodes recipe p0 = .ok ((Recipe.mk parts tail).replaced env nodes) ↔
      ∀ part ∈ parts, part.2.Found env nodes := by
  induction parts generalizing p0 with
  | nil =>
    have htail : recipe.drop p0 = tail.text ++ [] := by
      rw [h, Recipe.text, List.append_nil]
      rfl
    have hend : recipe.drop (p0 + tail.text.length) = [] := by
      rw [← List.drop_drop, htail, List.append_nil, List.drop_length]
    rw [rounds_literal env nodes tail.no_dollar tail.no_percent (by simp) htail,
      rounds_end env nodes hend]
    refine iff_of_true ?_ fun part hpart => absurd hpart List.not_mem_nil
    simp [Recipe.replaced, Except.map]
  | cons part parts ih =>
    obtain ⟨lit, r⟩ := part
    have hlit : recipe.drop p0 = lit.text ++ (r.text ++ (Recipe.mk parts tail).text) := by
      rw [h]
      simp [Recipe.text]
    have href : recipe.drop (p0 + lit.text.length) = r.text ++ (Recipe.mk parts tail).text := by
      rw [← List.drop_drop, hlit, List.drop_left]
    have hparts : recipe.drop (p0 + lit.text.length + r.text.length) =
        (Recipe.mk parts tail).text := by
      rw [← List.drop_drop, href, List.drop_left]
    have hhead : (r.text ++ (Recipe.mk parts tail).text).head? ≠ some '{' := by
      rw [Ref.text]
      cases r.uriEncode <;> simp
    have hreplaced : (Recipe.mk ((lit, r) :: parts) tail).replaced env nodes =
        lit.text.map ([·]) ++ r.encoded env (textOf nodes r.name) ::
          (Recipe.mk parts tail).replaced env nodes := by
      simp [Recipe.replaced]
    rw [rounds_literal env nodes lit.no_dollar lit.no_percent hhead hlit, hreplaced,
      map_eq_ok_iff (List.append_right_injective _), rounds_ref env nodes r href,
      List.forall_mem_cons, ← ih hparts, ← emit_iff]
    cases (scanned r.var).emit env nodes r.uriEncode with
    | error e => exact iff_of_false (fun h => by cases h) (fun h => by cases h.1)
    | ok text =>
      simp only [Except.ok.injEq]
      cases rounds env nodes recipe (p0 + lit.text.length + r.text.length) with
      | error e => exact iff_of_false (fun h => by cases h) (fun h => by cases h.2)
      | ok texts => simp [Except.map]

/-- Each round appends what it should, and the result is all of that. -/
def Substitutes (env : Env) (nodes : List Node) (r : Recipe) : Prop :=
  rounds env nodes r.text 0 = .ok (r.replaced env nodes) ∧
    urlRecipeHandle env nodes r.text = .ok (r.replaced env nodes).flatten

/-- Every reference is replaced by the text of its name, and everything else left as it is, exactly
when every reference is found. -/
theorem substitutes_iff (env : Env) (nodes : List Node) (r : Recipe) :
    Substitutes env nodes r ↔ ∀ part ∈ r.parts, part.2.Found env nodes := by
  have hiff := rounds_parts_iff env nodes r.tail r.parts (List.drop_zero : r.text.drop 0 = _)
  constructor
  · rintro ⟨hrounds, -⟩
    exact hiff.mp hrounds
  · intro h
    have hrounds : rounds env nodes r.text 0 = .ok (r.replaced env nodes) := hiff.mpr h
    exact ⟨hrounds, by rw [urlRecipeHandle, hrounds]; rfl⟩

/-- `${date}`, of a record with a date. -/
def dateRef : Ref where
  uriEncode := false
  md := false
  name := "date".toList
  name_ne := by decide
  name_chars := rfl
  not_md := by decide

def dateRecipe : Recipe where
  parts := [(⟨[], by decide, by decide⟩, dateRef)]
  tail := ⟨[], by decide, by decide⟩

def dateNodes : List Node :=
  [.element "metadata" [⟨"type", some "date".toList⟩] "1998".toList]

def noRegex : Env where
  regexReplace _ _ _ _ _ := .error .badRegex
  encodeUri c := [c]

/-- The text that is looked for is that of `e`. -/
theorem not_substitutes_date : ¬ Substitutes noRegex dateNodes dateRecipe := by
  rintro ⟨hrounds, -⟩
  have hfound := (rounds_parts_iff noRegex dateNodes dateRecipe.tail dateRecipe.parts
    (List.drop_zero : dateRecipe.text.drop 0 = _)).mp hrounds _ List.mem_cons_self
  rcases hfound with h | h | h | ⟨-, h⟩
  · cases h
  · exact absurd (by decide) (h 'd' rfl)
  · revert h
    decide
  · revert h
    decide

end UrlRecipe
end Metaproxy
