import Mathlib.Data.List.Induction
import Metaproxy.HttpRewrite.Configure

/-!
# HttpRewrite.Groups

What `parse_groups` makes of the patterns it accepts. Patterns are trees with what may stand in a
pattern, and `Pattern.plain` is one without names.

* `Scans` — what the loop makes of a piece of a pattern, whatever stands behind it.
* `parseGroups_iff` — when it takes out the names and nothing else, and numbers the groups right.
-/

namespace Metaproxy
namespace HttpRewrite

open Lib

/-! ## Patterns -/

inductive Atom where
  | char (c : Char)
  | escape (c : Char)
  /-- `[…]`. -/
  | set (text : List Char)
  /-- `\Q…\E`. -/
  | quote (text : List Char)
  /-- `(?#…)`. -/
  | comment (text : List Char)

inductive Kind where
  | capture
  /-- `(?<name>` or `(?P<name>`. -/
  | named (python : Bool) (name : List Char)
  | nonCapture
  /-- Any other `(?` or `(?P`. -/
  | other (python : Bool)

inductive Pattern where
  | empty
  | atom (a : Atom) (rest : Pattern)
  | group (kind : Kind) (body rest : Pattern)

def pythonMark (python : Bool) : List Char := if python then ['P'] else []

def Atom.render : Atom → List Char
  | char c => [c]
  | escape c => ['\\', c]
  | set text => '[' :: (text ++ [']'])
  | quote text => '\\' :: 'Q' :: (text ++ ['\\', 'E'])
  | comment text => '(' :: '?' :: '#' :: (text ++ [')'])

def Kind.render : Kind → List Char
  | capture => ['(']
  | named python name => '(' :: '?' :: (pythonMark python ++ '<' :: (name ++ ['>']))
  | nonCapture => ['(', '?', ':']
  | other python => '(' :: '?' :: pythonMark python

def Pattern.render : Pattern → List Char
  | empty => []
  | atom a rest => a.render ++ rest.render
  | group kind body rest => kind.render ++ (body.render ++ ')' :: rest.render)

def Atom.Ok : Atom → Prop
  | char c => c ∉ ['\\', '(', ')', '[']
  | escape c => c ≠ 'Q'
  | set _ => True
  | quote text => ¬ ['\\', 'E'] <:+: text
  | comment text => ')' ∉ text

/-- `s` may stand behind it. -/
def Kind.Ok (s : List Char) : Kind → Prop
  | capture => s.head? ≠ some '?'
  | named _ name => '>' ∉ name
  | nonCapture => True
  | other python =>
    (python = false → s.head? ∉ [some ':', some 'P', some '#']) ∧
      (s.head? = some '<' → (s.tail.dropWhile Char.isAlphanum).head? ≠ some '>')

def Pattern.Ok : Pattern → Prop
  | empty => True
  | atom a rest => a.Ok ∧ rest.Ok
  | group kind body rest => kind.Ok body.render ∧ body.Ok ∧ rest.Ok

def Kind.plain : Kind → Kind
  | named _ _ => capture
  | kind => kind

/-- With plain groups for the named ones. -/
def Pattern.plain : Pattern → Pattern
  | empty => empty
  | atom a rest => atom a rest.plain
  | group kind body rest => group kind.plain body.plain rest.plain

/-- Groups with their names, if they have any. -/
abbrev Names := List (Option (List Char))

def Kind.groups : Kind → Names
  | capture => [none]
  | named _ name => [some name]
  | nonCapture => []
  | other _ => []

/-- The capturing groups in the order of their parentheses. -/
def Pattern.groups : Pattern → Names
  | empty => []
  | atom _ rest => rest.groups
  | group kind body rest => kind.groups ++ (body.groups ++ rest.groups)

def Pattern.IsNamed (p : Pattern) (k : Nat) (name : List Char) : Prop :=
  ∃ i, k = i + 1 ∧ p.groups[i]? = some (some name)

/-! ## What the loop counts -/

/-- What stands behind each `(` that has no backslash before it. -/
def opens (esc : Bool) : List Char → List (List Char)
  | [] => []
  | c :: s =>
    if !esc && c = '\\' then opens true s
    else if !esc && c = '(' then s :: opens false s
    else opens false s

/-- Where `(?` stands in the text, it is `(?:`. -/
def Keeps (esc : Bool) (text : List Char) : Prop :=
  ∀ s ∈ opens esc text, s.head? = some '?' → s.tail.head? = some ':'

/-- How often `(` stands in the text and `(?` does not. -/
def strays (esc : Bool) (text : List Char) : Nat :=
  (opens esc text).countP fun s => s.head? ≠ some '?'

/-- The text of it that is no pattern. -/
def Atom.literal : Atom → List Char
  | set text => text
  | quote text => text
  | char _ => []
  | escape _ => []
  | comment _ => []

def Atom.Kept : Atom → Prop
  | comment _ => False
  | a => Keeps false a.literal

def Kind.Kept : Kind → Prop
  | other _ => False
  | _ => True

/-- There are no comments, no look-ahead and the like, and sets and quotes keep their text. -/
def Pattern.Kept : Pattern → Prop
  | empty => True
  | atom a rest => a.Kept ∧ rest.Kept
  | group kind body rest => kind.Kept ∧ body.Kept ∧ rest.Kept

/-- A parenthesis that the loop counts. -/
inductive Paren where
  /-- In a set or a quote. -/
  | stray
  | group (name : Option (List Char))

def Paren.name : Paren → Option (List Char)
  | stray => none
  | group name => name

def Paren.isGroup : Paren → Option (Option (List Char))
  | stray => none
  | group name => some name

def Pattern.parens : Pattern → List Paren
  | empty => []
  | atom a rest => List.replicate (strays false a.literal) .stray ++ rest.parens
  | group kind body rest => kind.groups.map .group ++ (body.parens ++ rest.parens)

/-- There is none in a set or a quote before a named group. -/
def Aligned (parens : List Paren) : Prop :=
  ∀ before name after, parens = before ++ .group (some name) :: after → .stray ∉ before

/-! ## The loop, piece by piece -/

/-- The groups of `names` from the first on, in a `group_index`. -/
def record (names : Names) : Table Nat (List Char) :=
  (names.zipIdx 1).foldl (fun index group =>
    match group.1 with
    | none => index
    | some name => index.insert group.2 name) ∅

theorem record_concat (names : Names) (name : Option (List Char)) :
    record (names ++ [name]) =
      match name with
      | none => record names
      | some name => (record names).insert (names.length + 1) name := by
  rw [record, List.zipIdx_append, List.foldl_append, List.zipIdx_singleton, List.foldl_cons,
    List.foldl_nil, Nat.add_comm 1]
  rfl

theorem lookup_record_iff (names : Names) (k : Nat) (name : List Char) :
    (record names).lookup k = some name ↔ ∃ i, k = i + 1 ∧ names[i]? = some (some name) := by
  induction names using List.reverseRecOn with
  | nil =>
    refine iff_of_false (fun h => by cases h) ?_
    rintro ⟨i, -, h⟩
    cases h
  | append_singleton names last ih =>
    have hlast : (names ++ [last])[names.length]? = some last := List.getElem?_concat_length
    have hrest : (∃ i, k = i + 1 ∧ (names ++ [last])[i]? = some (some name)) ↔
        (∃ i, k = i + 1 ∧ names[i]? = some (some name)) ∨
          (k = names.length + 1 ∧ last = some name) := by
      constructor
      · rintro ⟨i, rfl, hi⟩
        rcases Nat.lt_trichotomy i names.length with hlt | rfl | hgt
        · rw [List.getElem?_append_left hlt] at hi
          exact .inl ⟨i, rfl, hi⟩
        · rw [hlast] at hi
          exact .inr ⟨rfl, Option.some.inj hi⟩
        · rw [List.getElem?_eq_none (by simp; omega)] at hi
          cases hi
      · rintro (⟨i, rfl, hi⟩ | ⟨rfl, rfl⟩)
        · have hlt := (List.getElem?_eq_some_iff.mp hi).1
          exact ⟨i, rfl, by rw [List.getElem?_append_left hlt, hi]⟩
        · exact ⟨names.length, rfl, hlast⟩
    rw [record_concat, hrest, ← ih]
    cases last with
    | none => simp
    | some name' =>
      have hnone : k = names.length + 1 → (record names).lookup k ≠ some name := by
        intro hk h
        obtain ⟨i, hi, hget⟩ := ih.mp h
        have hlt := (List.getElem?_eq_some_iff.mp hget).1
        omega
      simp only [Table.lookup_insert_iff, Option.some.injEq]
      constructor
      · rintro (h | ⟨-, h⟩)
        · exact .inr h
        · exact .inl h
      · rintro (h | h)
        · exact .inr ⟨fun hk => hnone hk h, h⟩
        · exact .inl h

/-- The loop, when it has written `res` and counted `names`. -/
def scan (pattern : List Char) (esc : Bool) (res : List Char) (names : Names) (s : List Char) :
    Except ConfigError (List Char × Table Nat (List Char)) :=
  parseGroupsLoop pattern esc names.length (record names) res s

/-- The loop goes over `s` with what `next` allows behind it, or fails. When `s` is `kept` it writes
`plain` and counts `counts`, and otherwise it writes less than `plain`. -/
def Scans (esc esc' : Bool) (next : List Char → Prop) (s plain : List Char) (kept : Prop)
    (counts : Names) : Prop :=
  ∀ pattern res names rest, next rest →
    (∃ e, scan pattern esc res names (s ++ rest) = .error e) ∨
    ∃ out new, scan pattern esc res names (s ++ rest) =
        scan pattern esc' (res ++ out) (names ++ new) rest ∧
      (kept → out = plain ∧ new = counts) ∧ (¬ kept → out.length < plain.length)

/-- Anything may stand behind it. -/
def Any (_ : List Char) : Prop := True

section Scans

variable {esc esc1 esc' : Bool} {next next1 : List Char → Prop} {s s1 plain plain1 : List Char}
  {kept kept1 : Prop} {counts counts1 : Names}

theorem Scans.nil : Scans esc esc next [] [] True [] := by
  intro pattern res names rest _
  exact .inr ⟨[], [], by simp, fun _ => ⟨rfl, rfl⟩, fun h => absurd trivial h⟩

theorem Scans.append (h : Scans esc esc1 next1 s plain kept counts)
    (h1 : Scans esc1 esc' next s1 plain1 kept1 counts1)
    (hnext : ∀ rest, next rest → next1 (s1 ++ rest)) :
    Scans esc esc' next (s ++ s1) (plain ++ plain1) (kept ∧ kept1) (counts ++ counts1) := by
  intro pattern res names rest hrest
  rw [List.append_assoc]
  rcases h pattern res names (s1 ++ rest) (hnext rest hrest) with
    herr | ⟨out, new, hscan, hkept, hlost⟩
  · exact .inl herr
  rw [hscan]
  rcases h1 pattern (res ++ out) (names ++ new) rest hrest with
    herr | ⟨out1, new1, hscan1, hkept1, hlost1⟩
  · exact .inl herr
  refine .inr ⟨out ++ out1, new ++ new1, ?_, ?_, ?_⟩
  · rw [hscan1, List.append_assoc, List.append_assoc]
  · rintro ⟨hk, hk1⟩
    rw [(hkept hk).1, (hkept hk).2, (hkept1 hk1).1, (hkept1 hk1).2]
    exact ⟨rfl, rfl⟩
  · intro hno
    have hle : out.length ≤ plain.length := by
      by_cases hk : kept
      · rw [(hkept hk).1]
      · exact (hlost hk).le
    have hle1 : out1.length ≤ plain1.length := by
      by_cases hk : kept1
      · rw [(hkept1 hk).1]
      · exact (hlost1 hk).le
    rw [List.length_append, List.length_append]
    rcases not_and_or.mp hno with hk | hk
    · have := hlost hk
      omega
    · have := hlost1 hk
      omega

theorem Scans.congr (h : Scans esc esc' next s plain kept counts) (hk : kept ↔ kept1) :
    Scans esc esc' next s plain kept1 counts := by
  rw [← propext hk]
  exact h

/-- What is written is less than something longer. -/
theorem Scans.lost (h : Scans esc esc' next s plain kept counts)
    (hlen : plain.length < plain1.length) : Scans esc esc' next s plain1 False counts1 := by
  intro pattern res names rest hrest
  rcases h pattern res names rest hrest with herr | ⟨out, new, hscan, hkept, hlost⟩
  · exact .inl herr
  refine .inr ⟨out, new, hscan, False.elim, fun _ => ?_⟩
  by_cases hk : kept
  · rw [(hkept hk).1]
    exact hlen
  · exact (hlost hk).trans hlen

end Scans

theorem scan_nil (pattern : List Char) (esc : Bool) (res : List Char) (names : Names) :
    scan pattern esc res names [] = .ok (res, record names) := by
  rw [scan, parseGroupsLoop]

theorem scan_char {c : Char} (hb : c ≠ '\\') (hp : c ≠ '(') (pattern res : List Char)
    (names : Names) (s : List Char) :
    scan pattern false res names (c :: s) = scan pattern false (res ++ [c]) names s := by
  rw [scan, parseGroupsLoop]
  simp [hb, hp, scan]

theorem scans_char {c : Char} (hb : c ≠ '\\') (hp : c ≠ '(') :
    Scans false false Any [c] [c] True [] := by
  intro pattern res names rest _
  refine .inr ⟨[c], [], ?_, fun _ => ⟨rfl, rfl⟩, fun h => absurd trivial h⟩
  rw [List.singleton_append, scan_char hb hp, List.append_nil]

theorem scans_backslash : Scans false true Any ['\\'] ['\\'] True [] := by
  intro pattern res names rest _
  refine .inr ⟨['\\'], [], ?_, fun _ => ⟨rfl, rfl⟩, fun h => absurd trivial h⟩
  rw [scan, List.singleton_append, parseGroupsLoop]
  simp [scan]

theorem scans_escaped (c : Char) : Scans true false Any [c] [c] True [] := by
  intro pattern res names rest _
  refine .inr ⟨[c], [], ?_, fun _ => ⟨rfl, rfl⟩, fun h => absurd trivial h⟩
  rw [scan, List.singleton_append, parseGroupsLoop]
  simp [scan]

theorem scans_paren :
    Scans false false (fun rest => rest.head? ≠ some '?') ['('] ['('] True [none] := by
  intro pattern res names rest hrest
  refine .inr ⟨['('], [none], ?_, fun _ => ⟨rfl, rfl⟩, fun h => absurd trivial h⟩
  rw [scan, List.singleton_append, parseGroupsLoop]
  simp [hrest, scan, record_concat]

theorem scans_nonCapture :
    Scans false false Any ['(', '?', ':'] ['(', '?', ':'] True [] := by
  intro pattern res names rest hrest
  refine .inr ⟨['(', '?', ':'], [], ?_, fun _ => ⟨rfl, rfl⟩, fun h => absurd trivial h⟩
  rw [scan, List.cons_append, parseGroupsLoop]
  simp [scan]

/-! ### `(?` -/

section Mark

variable {pattern res s : List Char} {names : Names}

theorem scan_mark (h : s.head? ≠ some ':') (hname : (skipPython s).head? ≠ some '<') :
    scan pattern false res names ('(' :: '?' :: s) =
      scan pattern false (res ++ ['(']) (names ++ [none]) (skipPython s) := by
  rw [scan, parseGroupsLoop]
  simp [h, hname, scan, record_concat]

theorem scan_name_eq (h : s.head? ≠ some ':') (hname : (skipPython s).head? = some '<') :
    scan pattern false res names ('(' :: '?' :: s) =
      groupName pattern (skipPython s).tail >>= fun p =>
        scan pattern false (res ++ ['(']) (names ++ [some p.1]) p.2 := by
  have hcolon : ¬ ('?' :: s).tail.head? = some ':' := h
  have hopen : (skipPython ('?' :: s).tail).head? = some '<' := hname
  rw [scan, parseGroupsLoop, if_neg (by decide), if_pos (by simp), if_neg hcolon]
  simp only
  rw [if_pos hopen]
  split
  · rename_i e he
    have herror : groupName pattern (skipPython s).tail = .error e := he
    rw [herror]
    rfl
  · rename_i p hp
    have hname : groupName pattern (skipPython s).tail = .ok p := hp
    rw [hname]
    show _ = scan pattern false (res ++ ['(']) (names ++ [some p.1]) p.2
    rw [scan, record_concat, List.length_append]
    rfl

theorem scan_name (h : s.head? ≠ some ':') (hname : (skipPython s).head? = some '<')
    {gname rest : List Char} (hgroup : groupName pattern (skipPython s).tail = .ok (gname, rest)) :
    scan pattern false res names ('(' :: '?' :: s) =
      scan pattern false (res ++ ['(']) (names ++ [some gname]) rest := by
  rw [scan_name_eq h hname, hgroup]
  rfl

theorem scan_name_error (h : s.head? ≠ some ':') (hname : (skipPython s).head? = some '<')
    {e : ConfigError} (hgroup : groupName pattern (skipPython s).tail = .error e) :
    scan pattern false res names ('(' :: '?' :: s) = .error e := by
  rw [scan_name_eq h hname, hgroup]
  rfl

end Mark

theorem skipPython_mark {python : Bool} {s : List Char} (h : python = false → s.head? ≠ some 'P') :
    skipPython (pythonMark python ++ s) = s := by
  cases python with
  | true => rfl
  | false => exact if_neg (h rfl)

theorem groupName_error (pattern : List Char) {s : List Char}
    (h : (s.dropWhile Char.isAlphanum).head? ≠ some '>') :
    ∃ e, groupName pattern s = .error e := by
  rw [groupName]
  cases hs : s.dropWhile Char.isAlphanum with
  | nil => exact ⟨_, rfl⟩
  | cons c s1 =>
    rw [hs] at h
    have hc : ¬ c = '>' := fun heq => h (by rw [heq]; rfl)
    simp only [hc, if_false]
    exact ⟨_, rfl⟩

/-- A `(?` with neither `:` nor a name loses its `?`. -/
theorem scans_other (python : Bool) :
    Scans false false (fun rest => (python = false → rest.head? ∉ [some ':', some 'P']) ∧
      (rest.head? = some '<' → (rest.tail.dropWhile Char.isAlphanum).head? ≠ some '>'))
      (Kind.other python).render ['('] True [none] := by
  rintro pattern res names rest ⟨hfirst, hname⟩
  have hskip : skipPython (pythonMark python ++ rest) = rest :=
    skipPython_mark fun h hp => hfirst h (by simp [hp])
  have hcolon : (pythonMark python ++ rest).head? ≠ some ':' := by
    cases python with
    | true => simp [pythonMark]
    | false =>
      intro hc
      exact hfirst rfl (List.mem_cons.mpr (.inl hc))
  rw [Kind.render, List.cons_append, List.cons_append]
  by_cases hopen : rest.head? = some '<'
  · obtain ⟨e, he⟩ := groupName_error pattern (hname hopen)
    exact .inl ⟨e, scan_name_error hcolon (by rw [hskip, hopen]) (by rw [hskip, he])⟩
  · refine .inr ⟨['('], [none], ?_, fun _ => ⟨rfl, rfl⟩, fun h => absurd trivial h⟩
    rw [scan_mark hcolon (by rwa [hskip]), hskip]

/-- Only letters and digits are accepted in a name. -/
theorem scans_named (python : Bool) {name : List Char} (h : '>' ∉ name) :
    Scans false false Any (Kind.named python name).render ['('] True [some name] := by
  intro pattern res names rest _
  have hrender : (Kind.named python name).render ++ rest =
      '(' :: '?' :: (pythonMark python ++ '<' :: (name ++ '>' :: rest)) := by
    simp [Kind.render]
  have hskip : skipPython (pythonMark python ++ '<' :: (name ++ '>' :: rest)) =
      '<' :: (name ++ '>' :: rest) := skipPython_mark fun _ hp => by cases hp
  have hcolon : (pythonMark python ++ '<' :: (name ++ '>' :: rest)).head? ≠ some ':' := by
    cases python with
    | true => simp [pythonMark]
    | false => simp [pythonMark]
  rw [hrender]
  by_cases halnum : ∀ c ∈ name, c.isAlphanum = true
  · have hgroup : groupName pattern (name ++ '>' :: rest) = .ok (name, rest) := by
      rw [groupName, List.takeWhile_append_of_pos halnum, List.dropWhile_append_of_pos halnum]
      simp
    refine .inr ⟨['('], [some name], ?_, fun _ => ⟨rfl, rfl⟩, fun h => absurd trivial h⟩
    rw [scan_name hcolon (by rw [hskip]; rfl) (by rw [hskip]; exact hgroup)]
  · have hdrop : name.dropWhile Char.isAlphanum ≠ [] :=
      fun hnil => halnum (List.dropWhile_eq_nil_iff.mp hnil)
    obtain ⟨e, he⟩ := groupName_error pattern (s := name ++ '>' :: rest) (by
      rw [List.dropWhile_append, if_neg (by simpa using hdrop), List.head?_append_of_ne_nil _ hdrop]
      intro hhead
      exact h ((List.dropWhile_sublist _).subset (List.mem_of_mem_head? hhead)))
    exact .inl ⟨e, scan_name_error hcolon (by rw [hskip]; rfl) (by rw [hskip]; exact he)⟩

/-! ### Sets, quotes and comments -/

theorem head?_append_cons {c d : Char} {s t : List Char} (hc : c ≠ d)
    (h : (s ++ c :: t).head? = some d) : s.head? = some d := by
  cases s with
  | nil => exact absurd (Option.some.inj h) hc
  | cons _ _ => exact h

theorem head?_dropWhile_append_cons {c : Char} {s t : List Char} (hc : c ≠ '>')
    (hname : c.isAlphanum = false)
    (h : ((s ++ c :: t).dropWhile Char.isAlphanum).head? = some '>') :
    (s.dropWhile Char.isAlphanum).head? = some '>' := by
  rw [List.dropWhile_append] at h
  split at h
  · rw [List.dropWhile_cons_of_neg (by simp [hname])] at h
    exact absurd (Option.some.inj h) hc
  · exact head?_append_cons hc h

/-- What no name and no mark goes over. -/
structure Ends (c : Char) : Prop where
  mark : c ∉ ['?', ':', 'P', '<', '>']
  name : c.isAlphanum = false

/-- What may stand behind a mark may stand there with more behind it. -/
theorem Ends.other {c : Char} (hc : Ends c) {python : Bool} {s : List Char}
    (hfirst : python = false → s.head? ∉ [some ':', some 'P'])
    (hname : s.head? = some '<' → (s.tail.dropWhile Char.isAlphanum).head? ≠ some '>')
    (t : List Char) :
    (python = false → (s ++ c :: t).head? ∉ [some ':', some 'P']) ∧
      ((s ++ c :: t).head? = some '<' →
        ((s ++ c :: t).tail.dropWhile Char.isAlphanum).head? ≠ some '>') := by
  have hmark := hc.mark
  simp only [List.mem_cons, List.not_mem_nil, or_false, not_or] at hmark hfirst ⊢
  obtain ⟨-, hcolon, hP, hlt, hgt⟩ := hmark
  constructor
  · intro h
    exact ⟨fun hh => (hfirst h).1 (head?_append_cons hcolon hh),
      fun hh => (hfirst h).2 (head?_append_cons hP hh)⟩
  · intro hopen hclose
    have hs := head?_append_cons hlt hopen
    obtain ⟨s', rfl⟩ := List.head?_eq_some_iff.mp hs
    exact hname rfl (head?_dropWhile_append_cons hgt hc.name hclose)

theorem opens_escaped (c : Char) (s : List Char) : opens true (c :: s) = opens false s := rfl

theorem opens_backslash (s : List Char) : opens false ('\\' :: s) = opens true s := rfl

theorem opens_paren (s : List Char) : opens false ('(' :: s) = s :: opens false s := rfl

theorem opens_char {c : Char} (hb : c ≠ '\\') (hp : c ≠ '(') (s : List Char) :
    opens false (c :: s) = opens false s := by
  rw [opens]
  simp [hb, hp]

theorem keeps_nil (esc : Bool) : Keeps esc [] := fun _ h => by cases h

theorem keeps_mark_iff {s : List Char} :
    Keeps false ('(' :: '?' :: s) ↔ s.head? = some ':' ∧ Keeps false s := by
  rw [Keeps, opens_paren, opens_char (by decide) (by decide), List.forall_mem_cons]
  simp [Keeps]

theorem keeps_paren_iff {s : List Char} (h : s.head? ≠ some '?') :
    Keeps false ('(' :: s) ↔ Keeps false s := by
  rw [Keeps, opens_paren, List.forall_mem_cons]
  simp [Keeps, h]

theorem strays_paren {s : List Char} (h : s.head? ≠ some '?') :
    strays false ('(' :: s) = strays false s + 1 := by
  rw [strays, opens_paren, List.countP_cons_of_pos (by simpa using h)]
  rfl

theorem strays_nonCapture (s : List Char) :
    strays false ('(' :: '?' :: ':' :: s) = strays false s := by
  rw [strays, opens_paren, List.countP_cons_of_neg (by simp),
    opens_char (by decide) (by decide), opens_char (by decide) (by decide), strays]

/-- A mark that is none of a non-capturing group. -/
theorem mark_cases {s : List Char} (h : s.head? ≠ some ':') :
    ∃ python s1, s = pythonMark python ++ s1 ∧
      (python = false → s1.head? ∉ [some ':', some 'P']) := by
  by_cases hP : s.head? = some 'P'
  · obtain ⟨s1, rfl⟩ := List.head?_eq_some_iff.mp hP
    exact ⟨true, s1, rfl, fun h => by cases h⟩
  · refine ⟨false, s, rfl, fun _ hmem => ?_⟩
    rcases List.mem_cons.mp hmem with hc | hmem
    · exact h hc
    · exact hP (List.mem_singleton.mp hmem)

theorem name_cases (s : List Char) :
    (∃ name s1, s = '<' :: (name ++ '>' :: s1) ∧ '>' ∉ name) ∨
      (s.head? = some '<' → (s.tail.dropWhile Char.isAlphanum).head? ≠ some '>') := by
  by_cases hname : s.head? = some '<' ∧ (s.tail.dropWhile Char.isAlphanum).head? = some '>'
  · obtain ⟨s1, rfl⟩ := List.head?_eq_some_iff.mp hname.1
    obtain ⟨s2, hs2⟩ := List.head?_eq_some_iff.mp hname.2
    have hsplit := List.takeWhile_append_dropWhile (p := Char.isAlphanum) (l := s1)
    rw [List.tail_cons] at hs2
    rw [hs2] at hsplit
    refine .inl ⟨s1.takeWhile Char.isAlphanum, s2, by rw [hsplit], fun hmem => ?_⟩
    exact absurd (List.mem_takeWhile_imp hmem) (by decide)
  · exact .inr fun hopen hclose => hname ⟨hopen, hclose⟩

/-- What ends such a text, also when the backslash before it is not. -/
structure Closes (close : List Char) : Prop where
  scans : ∀ esc, Scans esc false Any close close True []
  ends : ∃ c t, close = c :: t ∧ Ends c

/-- A `(?` that is no `(?:` costs the text some of its characters. -/
theorem scans_mark {close : List Char} (hclose : Closes close) {s : List Char}
    (hcolon : s.head? ≠ some ':')
    (ih : ∀ s', s'.length < s.length + 2 → Scans false false Any (s' ++ close) (s' ++ close)
      (Keeps false s') (List.replicate (strays false s') none)) (counts : Names) :
    Scans false false Any ('(' :: '?' :: s ++ close) ('(' :: '?' :: s ++ close) False counts := by
  obtain ⟨d, t, hd, hends⟩ := hclose.ends
  obtain ⟨python, s2, rfl, hfirst⟩ := mark_cases hcolon
  rw [List.length_append] at ih
  rcases name_cases s2 with ⟨name, s3, rfl, hgt⟩ | hname
  · simp only [List.length_cons, List.length_append] at ih
    have h := (scans_named python hgt).append (ih s3 (by omega)) fun _ _ => trivial
    have hs : (Kind.named python name).render ++ (s3 ++ close) =
        '(' :: '?' :: (pythonMark python ++ '<' :: (name ++ '>' :: s3)) ++ close := by
      simp [Kind.render]
    rw [hs] at h
    refine h.lost ?_
    simp only [List.length_append, List.length_cons, List.length_nil]
    omega
  · have h := (scans_other python).append (ih s2 (by omega)) fun rest _ => by
      rw [hd, List.append_assoc]
      exact hends.other hfirst hname (t ++ rest)
    have hs : (Kind.other python).render ++ (s2 ++ close) =
        '(' :: '?' :: (pythonMark python ++ s2) ++ close := by
      simp [Kind.render]
    rw [hs] at h
    refine h.lost ?_
    simp only [List.length_append, List.length_cons, List.length_nil]
    omega

theorem scans_literal {close : List Char} (hclose : Closes close) (esc : Bool) (text : List Char) :
    Scans esc false Any (text ++ close) (text ++ close) (Keeps esc text)
      (List.replicate (strays esc text) none) := by
  obtain ⟨d, t, hd, hends⟩ := hclose.ends
  induction hlen : text.length using Nat.strong_induction_on generalizing text esc with
  | _ n ih =>
    cases text with
    | nil => exact (hclose.scans esc).congr (iff_of_true trivial (keeps_nil esc))
    | cons c s =>
      rw [List.length_cons] at hlen
      cases esc with
      | true =>
        have h := (scans_escaped c).append (ih s.length (by omega) false s rfl) fun _ _ => trivial
        exact h.congr (by simp [Keeps, opens_escaped])
      | false =>
        by_cases hb : c = '\\'
        · subst hb
          have h := scans_backslash.append (ih s.length (by omega) true s rfl) fun _ _ => trivial
          exact h.congr (by simp [Keeps, opens_backslash])
        by_cases hp : c = '('
        · subst hp
          by_cases hmark : s.head? = some '?'
          · obtain ⟨s1, rfl⟩ := List.head?_eq_some_iff.mp hmark
            rw [List.length_cons] at hlen
            by_cases hcolon : s1.head? = some ':'
            · obtain ⟨s2, rfl⟩ := List.head?_eq_some_iff.mp hcolon
              rw [List.length_cons] at hlen
              have h := scans_nonCapture.append (ih s2.length (by omega) false s2 rfl)
                fun _ _ => trivial
              rw [strays_nonCapture]
              refine h.congr ?_
              rw [keeps_mark_iff]
              simp [Keeps, opens_char]
            · have hlost : ¬ Keeps false ('(' :: '?' :: s1) :=
                fun hkeeps => hcolon (keeps_mark_iff.mp hkeeps).1
              rw [eq_false hlost]
              exact scans_mark hclose hcolon (fun s' hs' => ih s'.length (by omega) false s' rfl) _
          · have h := scans_paren.append (ih s.length (by omega) false s rfl) fun rest _ => by
              rw [hd, List.append_assoc]
              exact fun hh => hmark (head?_append_cons (fun heq => hends.mark (by simp [heq])) hh)
            rw [strays_paren hmark, List.replicate_succ]
            refine h.congr ?_
            rw [keeps_paren_iff hmark]
            exact iff_of_eq (true_and _)
        · have h := (scans_char hb hp).append (ih s.length (by omega) false s rfl)
            fun _ _ => trivial
          have hstrays : strays false (c :: s) = strays false s := by
            rw [strays, opens_char hb hp, strays]
          rw [hstrays]
          exact h.congr (by simp [Keeps, opens_char hb hp])

theorem closes_char {c : Char} (hb : c ≠ '\\') (hp : c ≠ '(') (hc : Ends c) : Closes [c] where
  scans esc := by
    cases esc with
    | true => exact scans_escaped c
    | false => exact scans_char hb hp
  ends := ⟨c, [], rfl, hc⟩

theorem closes_set : Closes [']'] := closes_char (by decide) (by decide) ⟨by decide, rfl⟩

theorem closes_comment : Closes [')'] := closes_char (by decide) (by decide) ⟨by decide, rfl⟩

theorem closes_quote : Closes ['\\', 'E'] where
  scans esc := by
    have htrue : (True ∧ True) ↔ True := and_self_iff
    cases esc with
    | true =>
      exact ((scans_escaped '\\').append (scans_char (c := 'E') (by decide) (by decide))
        fun _ _ => trivial).congr htrue
    | false => exact (scans_backslash.append (scans_escaped 'E') fun _ _ => trivial).congr htrue
  ends := ⟨'\\', ['E'], rfl, by decide, rfl⟩

/-! ### Whole patterns -/

theorem scans_atom {a : Atom} (h : a.Ok) :
    Scans false false Any a.render a.render a.Kept
      (List.replicate (strays false a.literal) none) := by
  cases a with
  | char c =>
    have hc : c ≠ '\\' ∧ c ≠ '(' ∧ c ≠ ')' ∧ c ≠ '[' := by simpa [Atom.Ok] using h
    exact (scans_char hc.1 hc.2.1).congr (iff_of_true trivial (keeps_nil false))
  | escape c =>
    exact (scans_backslash.append (scans_escaped c) fun _ _ => trivial).congr
      (iff_of_true ⟨trivial, trivial⟩ (keeps_nil false))
  | set text =>
    have hliteral := scans_literal closes_set false text
    have hall := (scans_char (c := '[') (by decide) (by decide)).append hliteral fun _ _ => trivial
    exact hall.congr (iff_of_eq (true_and _))
  | quote text =>
    have hliteral := scans_literal closes_quote false text
    have hopen := scans_backslash.append (scans_escaped 'Q') fun _ _ => trivial
    have hall := hopen.append hliteral fun _ _ => trivial
    exact hall.congr (by simp [Atom.Kept, Atom.literal])
  | comment text =>
    have hliteral := scans_literal closes_comment false ('#' :: text)
    have hall := (scans_other false).append hliteral fun rest _ =>
      ⟨fun _ => by simp, fun hopen => by cases hopen⟩
    exact hall.lost (by simp [Atom.render])

/-- A group up to its body. -/
theorem scans_kind {kind : Kind} {body : List Char} (h : kind.Ok body) :
    Scans false false (fun rest => ∃ t, rest = body ++ ')' :: t) kind.render kind.plain.render
      kind.Kept kind.groups := by
  cases kind with
  | capture =>
    rintro pattern res names rest ⟨t, rfl⟩
    exact scans_paren pattern res names _ fun hmark => h (head?_append_cons (by decide) hmark)
  | named python name =>
    rintro pattern res names rest -
    exact scans_named python h pattern res names rest trivial
  | nonCapture =>
    rintro pattern res names rest -
    exact scans_nonCapture pattern res names rest trivial
  | other python =>
    obtain ⟨hfirst, hname⟩ := h
    have hends : Ends ')' := ⟨by decide, rfl⟩
    have hall : Scans false false (fun rest => ∃ t, rest = body ++ ')' :: t)
        (Kind.other python).render ['('] True [none] := by
      rintro pattern res names rest ⟨t, rfl⟩
      refine scans_other python pattern res names _ (hends.other (fun hp hmem => ?_) hname t)
      refine hfirst hp ?_
      simp only [List.mem_cons, List.not_mem_nil, or_false] at hmem ⊢
      exact hmem.imp_right .inl
    exact hall.lost (by simp [Kind.plain, Kind.render])

theorem scans_pattern {p : Pattern} (h : p.Ok) :
    Scans false false Any p.render p.plain.render p.Kept (p.parens.map Paren.name) := by
  induction p with
  | empty => exact .nil
  | atom a rest ih =>
    have hall := (scans_atom h.1).append (ih h.2) fun _ _ => trivial
    rw [Pattern.parens, List.map_append, List.map_replicate]
    exact hall
  | group kind body rest ihbody ihrest =>
    obtain ⟨hkind, hbody, hrest⟩ := h
    have hclose := (scans_char (c := ')') (by decide) (by decide)).append (ihrest hrest)
      fun _ _ => trivial
    have hinner := (ihbody hbody).append hclose fun _ _ => trivial
    have hall := (scans_kind hkind).append hinner fun t _ =>
      ⟨rest.render ++ t, by rw [List.append_assoc]; rfl⟩
    have hcounts : (Pattern.group kind body rest).parens.map Paren.name =
        kind.groups ++ (body.parens.map Paren.name ++ ([] ++ rest.parens.map Paren.name)) := by
      have hgroups : (kind.groups.map Paren.group).map Paren.name = kind.groups := by
        rw [List.map_map]
        exact List.map_id _
      rw [Pattern.parens, List.map_append, List.map_append, hgroups, List.nil_append]
    rw [hcounts]
    exact hall.congr (by simp [Pattern.Kept])

/-! ## Numbers -/

theorem groups_eq (p : Pattern) : p.groups = p.parens.filterMap Paren.isGroup := by
  induction p with
  | empty => rfl
  | atom a rest ih =>
    have hstray : (List.replicate (strays false a.literal) Paren.stray).filterMap Paren.isGroup =
        [] := List.filterMap_eq_nil_iff.mpr fun paren hmem => by
      rw [List.eq_of_mem_replicate hmem]
      rfl
    rw [Pattern.parens, List.filterMap_append, hstray, ← ih]
    rfl
  | group kind body rest ihbody ihrest =>
    have hgroups : (kind.groups.map Paren.group).filterMap Paren.isGroup = kind.groups := by
      rw [List.filterMap_map]
      exact List.filterMap_some
    rw [Pattern.parens, List.filterMap_append, List.filterMap_append, hgroups, ← ihbody, ← ihrest]
    rfl

theorem aligned_group_iff (name : Option (List Char)) (parens : List Paren) :
    Aligned (.group name :: parens) ↔ Aligned parens := by
  constructor
  · rintro h before name' after rfl hmem
    exact h (.group name :: before) name' after rfl (List.mem_cons_of_mem _ hmem)
  · rintro h (_ | ⟨paren, before⟩) name' after heq hmem
    · cases hmem
    · obtain ⟨rfl, rfl⟩ := List.cons.inj heq
      rcases List.mem_cons.mp hmem with hstray | hmem
      · cases hstray
      · exact h before name' after rfl hmem

theorem aligned_stray_iff (parens : List Paren) :
    Aligned (.stray :: parens) ↔ ∀ name, .group (some name) ∉ parens := by
  constructor
  · intro h name hmem
    obtain ⟨before, after, rfl⟩ := List.append_of_mem hmem
    exact h (.stray :: before) name after rfl List.mem_cons_self
  · rintro h (_ | ⟨paren, before⟩) name after heq
    · cases heq
    · obtain ⟨rfl, rfl⟩ := List.cons.inj heq
      exact absurd (List.mem_append_right _ List.mem_cons_self) (h name)

theorem mem_of_group {parens : List Paren} {j : Nat} {name : List Char}
    (h : (parens.filterMap Paren.isGroup)[j]? = some (some name)) :
    .group (some name) ∈ parens := by
  obtain ⟨paren, hmem, hparen⟩ := List.mem_filterMap.mp (List.mem_of_getElem? h)
  cases paren with
  | stray => cases hparen
  | group name' =>
    cases hparen
    exact hmem

/-- Where the last named group is counted, and that none is numbered higher. -/
theorem exists_last {parens : List Paren} {name : List Char} (h : .group (some name) ∈ parens) :
    ∃ (i : Nat) (last : List Char), (parens.map Paren.name)[i]? = some (some last) ∧
      ∀ (j : Nat) (name' : List Char),
        (parens.filterMap Paren.isGroup)[j]? = some (some name') → j ≤ i := by
  induction parens generalizing name with
  | nil => cases h
  | cons paren parens ih =>
    by_cases hlater : ∃ name', .group (some name') ∈ parens
    · obtain ⟨name', hname'⟩ := hlater
      obtain ⟨i, last, hi, hhigher⟩ := ih hname'
      refine ⟨i + 1, last, hi, fun j name'' hj => ?_⟩
      cases paren with
      | stray => exact (hhigher j name'' hj).trans (Nat.le_succ i)
      | group group =>
        cases j with
        | zero => exact Nat.zero_le _
        | succ j => exact Nat.succ_le_succ (hhigher j name'' hj)
    · rcases List.mem_cons.mp h with rfl | h
      · refine ⟨0, name, rfl, fun j name' hj => ?_⟩
        cases j with
        | zero => exact Nat.le_refl 0
        | succ j => exact absurd ⟨name', mem_of_group hj⟩ hlater
      · exact absurd ⟨name, h⟩ hlater

theorem mem_of_name {parens : List Paren} {i : Nat} {name : List Char}
    (h : (parens.map Paren.name)[i]? = some (some name)) : .group (some name) ∈ parens := by
  obtain ⟨paren, hmem, hparen⟩ := List.mem_map.mp (List.mem_of_getElem? h)
  cases paren with
  | stray => cases hparen
  | group name' =>
    cases hparen
    exact hmem

/-- Parentheses that are no groups do no harm behind the last named one. -/
theorem aligned_iff (parens : List Paren) :
    (∀ (i : Nat) (name : List Char), (parens.map Paren.name)[i]? = some (some name) ↔
      (parens.filterMap Paren.isGroup)[i]? = some (some name)) ↔ Aligned parens := by
  induction parens with
  | nil =>
    refine iff_of_true (fun i name => Iff.rfl) fun before name after heq => ?_
    cases before with
    | nil => cases heq
    | cons _ _ => cases heq
  | cons paren parens ih =>
    cases paren with
    | group group =>
      rw [aligned_group_iff, ← ih]
      constructor
      · intro h i name
        exact h (i + 1) name
      · intro h i name
        cases i with
        | zero => exact Iff.rfl
        | succ i => exact h i name
    | stray =>
      rw [aligned_stray_iff]
      constructor
      · intro h name hmem
        obtain ⟨i, last, hi, hhigher⟩ := exists_last hmem
        exact absurd (hhigher (i + 1) last ((h (i + 1) last).mp hi)) (Nat.not_succ_le_self i)
      · intro h i name
        refine iff_of_false (fun hi => ?_) fun hi => h name (mem_of_group hi)
        cases i with
        | zero => cases hi
        | succ i => exact h name (mem_of_name hi)

/-- Of a pattern that is accepted, the names are taken out and nothing else, and the groups have
their numbers, exactly when sets and quotes keep their text, there are no comments and no other
`(?`, and no parenthesis in a set or a quote before a named group. -/
theorem parseGroups_iff (p : Pattern) (hp : p.Ok) (res : List Char)
    (groupIndex : Table Nat (List Char))
    (h : parseGroupsLoop p.render false 0 ∅ [] p.render = .ok (res, groupIndex)) :
    (res = p.plain.render ∧
        ∀ k name, groupIndex.lookup k = some name ↔ p.IsNamed k name) ↔
      p.Kept ∧ Aligned p.parens := by
  have hscan : scan p.render false [] [] (p.render ++ []) = .ok (res, groupIndex) := by
    rw [List.append_nil]
    exact h
  rcases scans_pattern hp p.render [] [] [] trivial with ⟨e, he⟩ | ⟨out, new, hout, hkept, hlost⟩
  · rw [he] at hscan
    cases hscan
  rw [hout, List.nil_append, List.nil_append, scan_nil] at hscan
  cases hscan
  by_cases hk : p.Kept
  · obtain ⟨rfl, rfl⟩ := hkept hk
    have hnames : (∀ k name, (record (p.parens.map Paren.name)).lookup k = some name ↔
        p.IsNamed k name) ↔ Aligned p.parens := by
      rw [← aligned_iff]
      simp only [lookup_record_iff, Pattern.IsNamed, groups_eq]
      constructor
      · intro hall i name
        have hi := hall (i + 1) name
        simpa using hi
      · intro hall k name
        exact exists_congr fun i => and_congr_right fun _ => hall i name
    rw [hnames]
    exact and_congr_left' (iff_of_true rfl hk)
  · refine iff_of_false (fun hprop => ?_) fun hcond => hk hcond.1
    have hlt := hlost hk
    rw [hprop.1] at hlt
    exact Nat.lt_irrefl _ hlt

/-! ### Two patterns -/

/-- `(?<n>a)`. -/
def namedPattern : Pattern := .group (.named false ['n']) (.atom (.char 'a') .empty) .empty

/-- `(?i)(?<n>a)`. -/
def flagPattern : Pattern :=
  .group (.other false) (.atom (.char 'i') .empty) namedPattern

theorem namedPattern_ok : namedPattern.Ok := by
  simp [namedPattern, Pattern.Ok, Kind.Ok, Atom.Ok]

theorem flagPattern_ok : flagPattern.Ok := by
  refine ⟨⟨fun _ => by decide, fun h => by cases h⟩, ⟨?_, trivial⟩, namedPattern_ok⟩
  simp [Atom.Ok]

theorem scan_namedGroup (pattern res : List Char) (names : Names) :
    scan pattern false res names "(?<n>a)".toList =
      scan pattern false (res ++ ['('] ++ ['a'] ++ [')']) (names ++ [some ['n']]) [] := by
  have hmark : ("<n>a)".toList).head? ≠ some ':' := by decide
  refine (scan_name hmark rfl rfl).trans ?_
  refine (scan_char (by decide) (by decide) _ _ _ _).trans ?_
  exact scan_char (by decide) (by decide) _ _ _ _

theorem scan_named :
    parseGroupsLoop namedPattern.render false 0 ∅ [] namedPattern.render =
      .ok ("(a)".toList, AList.singleton 1 ['n']) := by
  refine (scan_namedGroup _ [] []).trans ?_
  rw [scan_nil]
  rfl

theorem parseGroups_named :
    "(a)".toList = namedPattern.plain.render ∧
      ∀ k name, (AList.singleton 1 ['n'] : Table Nat (List Char)).lookup k = some name ↔
        namedPattern.IsNamed k name := by
  refine (parseGroups_iff namedPattern namedPattern_ok _ _ scan_named).mpr ⟨?_, ?_⟩
  · simp [namedPattern, Pattern.Kept, Kind.Kept, Atom.Kept, Atom.literal, keeps_nil]
  · refine (aligned_group_iff _ _).mpr ?_
    rintro before name after heq hmem
    cases before with
    | nil => cases heq
    | cons _ _ => cases heq

theorem scan_flag :
    parseGroupsLoop flagPattern.render false 0 ∅ [] flagPattern.render =
      .ok ("(i)(a)".toList, AList.singleton 2 ['n']) := by
  have hmark : ("i)(?<n>a)".toList).head? ≠ some ':' := by decide
  show scan flagPattern.render false [] [] "(?i)(?<n>a)".toList = _
  refine (scan_mark hmark (by decide)).trans ?_
  refine (scan_char (by decide) (by decide) _ _ _ _).trans ?_
  refine (scan_char (by decide) (by decide) _ _ _ _).trans ?_
  refine (scan_namedGroup _ _ _).trans ?_
  rw [scan_nil]
  rfl

/-- `(?i)` becomes a group, which matches an `i` and is counted. -/
theorem not_parseGroups_flag :
    flagPattern.Ok ∧ ∃ res groupIndex,
      parseGroupsLoop flagPattern.render false 0 ∅ [] flagPattern.render =
          .ok (res, groupIndex) ∧
        res = "(i)(a)".toList ∧ groupIndex.lookup 2 = some ['n'] ∧
        ¬ (res = flagPattern.plain.render ∧
          ∀ k name, groupIndex.lookup k = some name ↔ flagPattern.IsNamed k name) := by
  refine ⟨flagPattern_ok, _, _, scan_flag, rfl, rfl, fun h => ?_⟩
  exact absurd h.1 (by decide)

end HttpRewrite
end Metaproxy
