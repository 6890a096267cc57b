import Mathlib.Data.List.Induction
import Metaproxy.Lib.Cql
import Metaproxy.Util

/-!
# Zoom.Torus

The CQL queries that `filter_zoom.cpp` sends to the Torus: for an init in `auth`, and for a
database in `get_backend_from_databases`.

* `quoted_iff` — an escaped string in quotes stands for itself exactly when it has no backslash,
  whatever follows it.
* `torus_queries_iff` — when the queries have the intended structure.
-/

namespace Metaproxy
namespace Zoom

open Lib Cql

/-! ## The code -/

/-- `strchr("*?^\"", c)`, which finds the end of the string, too. -/
def needsEscape (c : Char) : Bool := c = '*' || c = '?' || c = '^' || c = '"' || c = Char.ofNat 0

def escapeCqlTerm : List Char → List Char
  | [] => []
  | c :: inp => if needsEscape c then '\\' :: c :: escapeCqlTerm inp else c :: escapeCqlTerm inp

inductive IdAuthentication where
  | open (s : List Char)
  | idPass (userId password : Option (List Char))
  | other (encoding : List UInt8)
deriving DecidableEq, Repr

/-- User and password of an init. -/
def credentials : Option IdAuthentication → List Char × List Char
  | some (.open s) =>
    match s.dropWhile (· ≠ '/') with
    | [] => ([], [])
    | _ :: password => (s.takeWhile (· ≠ '/'), password)
  | some (.idPass userId password) => (userId.getD [], password.getD [])
  | _ => ([], [])

/-- The query of `auth`, and the error when it finds nothing. -/
def authQuery (user password ip torusAuthHostname : List Char) : List Char × Bib1 :=
  if user ≠ [] ∧ password ≠ [] then
    ("userName==\"".toList ++ (escapeCqlTerm user ++ ("\" and password==\"".toList ++
      (escapeCqlTerm password ++ "\"".toList))), .initAcBadUseridAndOrPassword)
  else
    ("ipRanges encloses/net.ipaddress \"".toList ++ (escapeCqlTerm ip ++ ("\"".toList ++
      if torusAuthHostname ≠ [] then
        " AND hostName == \"".toList ++ (escapeCqlTerm torusAuthHostname ++ "\"".toList)
      else [])), .initAcBlockedNetworkAddress)

/-- What `auth` asks the Torus for an init, if anything. `matchGlob` is `yaz_match_glob`, `clientIp`
the address in the `otherInfo` of the init and `address` that of the peer. -/
def auth (matchGlob : List Char → List Char → Bool) (torusAuthUrl torusAllowIp
    torusAuthHostname : List Char) (idAuthentication : Option IdAuthentication)
    (clientIp : Option (List Char)) (address : List Char) : Option (List Char × Bib1) :=
  let (user, password) := credentials idAuthentication
  let ip := clientIp.getD address
  let globs := (torusAllowIp.splitOn ' ').filter (· ≠ [])
  if torusAuthUrl = [] then none
  else if globs.any fun glob => matchGlob glob ip then none
  else some (authQuery user password ip torusAuthHostname)

/-- The query of `get_backend_from_databases`. -/
def torusQuery (torusDb : List Char) : List Char := "udb==".toList ++ torusDb

/-! ## What the queries should mean -/

def relates (index relation : String) (term : List Char) : Cql.Tree (List Char) :=
  .clause ⟨some index.toList, relation.toList, [], term⟩

/-- The user and the password, or the address and the host name if there is one. -/
def authTree (user password ip torusAuthHostname : List Char) : Cql.Tree (List Char) :=
  if user ≠ [] ∧ password ≠ [] then
    .node "and".toList (relates "userName" "==" user) (relates "password" "==" password)
  else
    let encloses := .clause
      ⟨some "ipRanges".toList, "encloses".toList, ["net.ipaddress".toList], ip⟩
    if torusAuthHostname ≠ [] then
      .node "and".toList encloses (relates "hostName" "==" torusAuthHostname)
    else encloses

def torusTree (torusDb : List Char) : Cql.Tree (List Char) := relates "udb" "==" torusDb

/-- The text is a query with this structure, and its terms stand for the strings in it. -/
def Means (text : List Char) (tree : Cql.Tree (List Char)) : Prop :=
  (parse text).map (Cql.Tree.map literal) = some (tree.map some)

instance (text : List Char) (tree : Cql.Tree (List Char)) : Decidable (Means text tree) :=
  inferInstanceAs (Decidable (_ = _))

/-! ## Escaped strings in quotes -/

/-- The term that is read from an escaped string. -/
def escapedTerm (s : List Char) : Term := s.map fun c => ⟨needsEscape c, c⟩

theorem written_escapedTerm (s : List Char) : written (escapedTerm s) = escapeCqlTerm s := by
  induction s with
  | nil => rfl
  | cons c s ih =>
    show (if needsEscape c then '\\' :: c :: written (escapedTerm s)
      else c :: written (escapedTerm s)) = _
    rw [ih]
    rfl

theorem literal_escapedTerm (s : List Char) : literal (escapedTerm s) = some s := by
  induction s with
  | nil => rfl
  | cons c s ih =>
    have hmask : (!needsEscape c && isMask c) = false := by
      cases hm : isMask c with
      | false => simp
      | true =>
        have : needsEscape c = true := by
          simp only [isMask, Bool.or_eq_true] at hm
          simp only [needsEscape, Bool.or_eq_true]
          tauto
        simp [this]
    show (if !needsEscape c && isMask c then none else (literal (escapedTerm s)).map (c :: ·)) = _
    rw [hmask, ih]
    rfl

theorem quotable_escapedTerm {s : List Char} (h : '\\' ∉ s) : Quotable (escapedTerm s) := by
  intro c hc hescaped
  obtain ⟨d, hd, rfl⟩ := List.mem_map.mp hc
  refine ⟨?_, ?_⟩
  · rintro rfl
    cases hescaped
  · rintro rfl
    exact h hd

variable {s tail rest : List Char} {t : Term}

theorem lexQuoted_escaped_ok (h : '\\' ∉ s) (tail : List Char) :
    lexQuoted (escapeCqlTerm s ++ '"' :: tail) = some (escapedTerm s, tail) := by
  rw [← written_escapedTerm]
  exact lexQuoted_written (quotable_escapedTerm h) tail

/-- One character of an escaped string, in front of whatever follows. -/
theorem lexQuoted_cons {c : Char} (hc : c ≠ '\\') (cs : List Char) :
    lexQuoted ((if needsEscape c then ['\\', c] else [c]) ++ cs) =
      (lexQuoted cs).map fun r => (⟨needsEscape c, c⟩ :: r.1, r.2) := by
  cases hn : needsEscape c with
  | true => exact lexQuoted_escaped c cs
  | false =>
    refine lexQuoted_plain ?_ hc cs
    rintro rfl
    cases hn

theorem escapeCqlTerm_cons (c : Char) (s : List Char) :
    escapeCqlTerm (c :: s) = (if needsEscape c then ['\\', c] else [c]) ++ escapeCqlTerm s := by
  rw [escapeCqlTerm]
  cases needsEscape c <;> rfl

theorem literal_cons {c : TermChar} (h : literal (c :: t) = some s) :
    (!c.escaped && isMask c.char) = false ∧ ∃ s', literal t = some s' ∧ s = c.char :: s' := by
  rw [literal] at h
  split at h
  · cases h
  · rename_i hmask
    obtain ⟨s', hs', rfl⟩ := Option.map_eq_some_iff.mp h
    exact ⟨by simpa using hmask, s', hs', rfl⟩

/-- A character that has been read stands for the first one of the string. -/
theorem reads_first {c : TermChar} {c' : Char} {cs : List Char}
    (h : ((lexQuoted cs).map fun r => (c :: r.1, r.2)) = some (t, rest))
    (hl : literal t = some (c' :: s)) :
    c' = c.char ∧ (!c.escaped && isMask c.char) = false ∧
      ∃ t', lexQuoted cs = some (t', rest) ∧ literal t' = some s := by
  obtain ⟨r, hr, heq⟩ := Option.map_eq_some_iff.mp h
  cases heq
  obtain ⟨hmask, s', hs', heq⟩ := literal_cons hl
  obtain ⟨rfl, rfl⟩ := List.cons.inj heq
  exact ⟨rfl, hmask, r.1, hr, hs'⟩

/-- What stands for a string does not start with another character than the string, nor with a mask
character. -/
theorem reads_unescaped {d c' : Char} {cs : List Char} (hd : d ≠ '\\')
    (h : lexQuoted (d :: cs) = some (t, rest)) (hl : literal t = some (c' :: s)) :
    d ≠ '"' ∧ c' = d ∧ isMask d = false := by
  by_cases hq : d = '"'
  · subst hq
    rw [lexQuoted_close] at h
    cases h
    cases hl
  · rw [lexQuoted_plain hq hd] at h
    obtain ⟨rfl, hmask, -⟩ := reads_first h hl
    exact ⟨hq, rfl, by simpa using hmask⟩

/-- The first character that is read after a backslash of the writer. -/
theorem lexQuoted_backslash {d : Char} (s tail : List Char) :
    lexQuoted ('\\' :: (escapeCqlTerm (d :: s) ++ tail)) =
      if needsEscape d then
        (lexQuoted (d :: (escapeCqlTerm s ++ tail))).map fun r => (⟨true, '\\'⟩ :: r.1, r.2)
      else (lexQuoted (escapeCqlTerm s ++ tail)).map fun r => (⟨true, d⟩ :: r.1, r.2) := by
  rw [escapeCqlTerm]
  cases needsEscape d with
  | true => exact lexQuoted_escaped _ _
  | false => exact lexQuoted_escaped _ _

theorem reads_plain {c c' : Char} {s' : List Char} (hc : c ≠ '\\')
    (h : lexQuoted (escapeCqlTerm (c :: s) ++ '"' :: tail) = some (t, rest))
    (hl : literal t = some (c' :: s')) : c' = c ∧
      ∃ t', lexQuoted (escapeCqlTerm s ++ '"' :: tail) = some (t', rest) ∧ literal t' = some s' := by
  rw [escapeCqlTerm_cons, List.append_assoc, lexQuoted_cons hc] at h
  obtain ⟨hchar, -, hrest⟩ := reads_first h hl
  exact ⟨hchar, hrest⟩

/-- A backslash at the end takes the closing quote along. -/
theorem reads_backslash_end {c' : Char} {s' : List Char}
    (h : lexQuoted (escapeCqlTerm ['\\'] ++ '"' :: tail) = some (t, rest))
    (hl : literal t = some (c' :: s')) : c' = '"' := by
  have hquote := lexQuoted_escaped '"' tail
  have htext : escapeCqlTerm ['\\'] ++ '"' :: tail = '\\' :: '"' :: tail := rfl
  rw [htext, hquote] at h
  exact (reads_first h hl).1

/-- A backslash takes the next character along. When that is written with a backslash, it is this
one, and the character itself is no longer escaped. -/
theorem reads_backslash {d c' : Char} {s' : List Char}
    (h : lexQuoted (escapeCqlTerm ('\\' :: d :: s) ++ '"' :: tail) = some (t, rest))
    (hl : literal t = some (c' :: s')) :
    (needsEscape d = true ∧ c' = '\\' ∧
      ∃ t', lexQuoted (d :: (escapeCqlTerm s ++ '"' :: tail)) = some (t', rest) ∧
        literal t' = some s') ∨
    (needsEscape d = false ∧ c' = d ∧
      ∃ t', lexQuoted (escapeCqlTerm s ++ '"' :: tail) = some (t', rest) ∧
        literal t' = some s') := by
  have htext : escapeCqlTerm ('\\' :: d :: s) ++ '"' :: tail =
      '\\' :: (escapeCqlTerm (d :: s) ++ '"' :: tail) := rfl
  rw [htext, lexQuoted_backslash] at h
  cases hn : needsEscape d with
  | true =>
    rw [hn, if_pos rfl] at h
    obtain ⟨hchar, -, hrest⟩ := reads_first h hl
    exact .inl ⟨rfl, hchar, hrest⟩
  | false =>
    rw [hn, if_neg Bool.false_ne_true] at h
    obtain ⟨hchar, -, hrest⟩ := reads_first h hl
    exact .inr ⟨rfl, hchar, hrest⟩

/-- A written string is never read as itself behind backslashes: each backslash of the text takes
the character behind it along. -/
theorem literal_ne_run (s tail : List Char) : ∀ (k : Nat) (t : Term) (rest : List Char),
    lexQuoted (escapeCqlTerm s ++ '"' :: tail) = some (t, rest) →
      literal t = some (List.replicate (k + 1) '\\' ++ s) → False := by
  induction s using List.twoStepInduction with
  | nil =>
    intro k t rest h hl
    have hclose := lexQuoted_close tail
    rw [escapeCqlTerm, List.nil_append, hclose] at h
    cases h
    cases hl
  | singleton c =>
    intro k t rest h hl
    by_cases hc : c = '\\'
    · subst hc
      exact absurd (reads_backslash_end h hl) (by decide)
    · exact hc (reads_plain hc h hl).1.symm
  | cons_cons c d xs ihxs _ =>
    intro k t rest h hl
    by_cases hc : c = '\\'
    · subst hc
      rcases reads_backslash h hl with ⟨hn, -, t', hr, hl'⟩ | ⟨hn, hchar, t', hr, hl'⟩
      · -- `d` is not a backslash, but the next one of the run is
        have hd : d ≠ '\\' := by
          rintro rfl
          cases hn
        have hrun : ∃ s', List.replicate k '\\' ++ '\\' :: d :: xs = '\\' :: s' := by
          cases k with
          | zero => exact ⟨_, rfl⟩
          | succ k => exact ⟨_, rfl⟩
        obtain ⟨s', hs'⟩ := hrun
        have hfirst : literal t' = some ('\\' :: s') := hl'.trans (congrArg some hs')
        exact hd (reads_unescaped hd hr hfirst).2.1.symm
      · -- the pair is read as one backslash, so the run grows
        subst hchar
        refine ihxs (k + 1) t' rest hr ?_
        rw [hl', List.replicate_succ', List.replicate_succ']
        simp
    · exact hc (reads_plain hc h hl).1.symm

def NulFree (s : List Char) : Prop := Char.ofNat 0 ∉ s

instance (s : List Char) : Decidable (NulFree s) := inferInstanceAs (Decidable (_ ∉ _))

theorem nulFree_tail {c : Char} (h : NulFree (c :: s)) : NulFree s :=
  fun hs => h (List.mem_cons_of_mem _ hs)

theorem no_backslash (hnul : NulFree s)
    (h : lexQuoted (escapeCqlTerm s ++ '"' :: tail) = some (t, rest))
    (hl : literal t = some s) : '\\' ∉ s := by
  induction s generalizing t with
  | nil => exact List.not_mem_nil
  | cons c s ih =>
    by_cases hc : c = '\\'
    · subst hc
      exfalso
      cases s with
      | nil => exact absurd (reads_backslash_end h hl) (by decide)
      | cons d s =>
        rcases reads_backslash h hl with ⟨hn, -, t', hr, hl'⟩ | ⟨-, rfl, t', hr, hl'⟩
        · -- the backslash is read as itself, and `d` is no longer escaped
          have hd : d ≠ '\\' := by
            rintro rfl
            cases hn
          obtain ⟨hq, -, hmask⟩ := reads_unescaped hd hr hl'
          have hzero : d ≠ Char.ofNat 0 := fun h0 => hnul (by simp [h0])
          simp only [isMask, Bool.or_eq_false_iff, decide_eq_false_iff_not] at hmask
          simp only [needsEscape, Bool.or_eq_true, decide_eq_true_eq] at hn
          tauto
        · exact literal_ne_run s tail 0 t' rest hr hl'
    · obtain ⟨-, t', hr, hl'⟩ := reads_plain hc h hl
      intro hmem
      rcases List.mem_cons.mp hmem with heq | hmem
      · exact hc heq.symm
      · exact ih (nulFree_tail hnul) hr hl' hmem

/-- An escaped string in quotes is read as a term for itself exactly when it has no backslash, and
then up to its own closing quote. -/
theorem quoted_iff (hnul : NulFree s) (tail : List Char) :
    (∃ t rest, lexQuoted (escapeCqlTerm s ++ '"' :: tail) = some (t, rest) ∧
      literal t = some s) ↔ '\\' ∉ s := by
  constructor
  · rintro ⟨t, rest, h, hl⟩
    exact no_backslash hnul h hl
  · intro h
    exact ⟨_, _, lexQuoted_escaped_ok h tail, literal_escapedTerm s⟩

/-! ## Queries of quoted terms -/

variable {pre mid op : List Char} {c c' : Clause Unit} {s' : List Char}

theorem parse_eq {text : List Char} {tree : Cql.Tree Term} (h : parse text = some tree) :
    ∃ rest, parseQuery (2 * text.length + 2) text = some (tree, rest) := by
  obtain ⟨⟨tree', rest⟩, hquery, heq⟩ := Option.bind_eq_some_iff.mp h
  refine ⟨rest, ?_⟩
  split at heq
  · cases heq
    exact hquery
  · cases heq

/-- Reading a query that opens with a quoted clause. -/
theorem parseQuery_opens (h : Opens pre c) (fuel : Nat) (cs : List Char) :
    parseQuery (fuel + 2) (pre ++ cs) = (lexQuoted cs).bind fun r =>
      parseRest (fuel + 1) (.clause (c.map fun _ => r.1)) r.2 := by
  rw [parseQuery, parseClause_search (h.start cs), h.search cs]
  cases lexQuoted cs with
  | none => rfl
  | some r => rfl

/-- The clauses that have been read are those of the intended tree. -/
theorem leaves_of_means {tree : Cql.Tree (List Char)} {read : Cql.Tree Term}
    {leaves : List (Clause Term)}
    (hmap : read.map literal = tree.map some) (hread : leaves <+: read.leaves) :
    leaves.map (Clause.map literal) <+: tree.leaves.map (Clause.map some) := by
  rw [← Cql.Tree.leaves_map, ← hmap, Cql.Tree.leaves_map]
  exact hread.map _

theorem means_read {text : List Char} {tree : Cql.Tree (List Char)} (h : Means text tree) :
    ∃ read rest, parseQuery (2 * text.length + 2) text = some (read, rest) ∧
      read.map literal = tree.map some := by
  obtain ⟨read, hparse, hmap⟩ := Option.map_eq_some_iff.mp h
  obtain ⟨rest, hquery⟩ := parse_eq hparse
  exact ⟨read, rest, hquery, hmap⟩

/-- The term behind `pre` stands for the first term of the tree. -/
theorem means_first {text : List Char} {first : Clause (List Char)} {leaves : List _}
    {tree : Cql.Tree (List Char)} (hopens : Opens pre c) (htext : text = pre ++ rest)
    (htree : tree.leaves = first :: leaves) (h : Means text tree) :
    ∃ t rest', lexQuoted rest = some (t, rest') ∧ literal t = some first.term := by
  obtain ⟨read, rest', hquery, hmap⟩ := means_read h
  rw [htext, parseQuery_opens hopens] at hquery
  obtain ⟨⟨t, rest1⟩, hlex, hrest⟩ := Option.bind_eq_some_iff.mp hquery
  have hleaves := leaves_of_means hmap (parseRest_leaves hrest)
  rw [htree] at hleaves
  have hclause := List.cons_prefix_cons.mp hleaves
  exact ⟨t, rest1, hlex, congrArg Clause.term hclause.1⟩

theorem means_one (hopens : Opens pre c) (hnul : NulFree s) :
    Means (pre ++ (escapeCqlTerm s ++ ['"'])) (.clause (c.map fun _ => s)) ↔ '\\' ∉ s := by
  constructor
  · intro h
    obtain ⟨t, rest, hlex, hl⟩ := means_first hopens rfl rfl h
    exact no_backslash hnul hlex hl
  · intro hs
    have hquery : parseQuery (2 * (pre ++ (escapeCqlTerm s ++ ['"'])).length + 2)
        (pre ++ (escapeCqlTerm s ++ ['"'])) =
          some (.clause (c.map fun _ => escapedTerm s), []) := by
      rw [parseQuery_opens hopens, lexQuoted_escaped_ok hs]
      rfl
    rw [Means, parse, hquery]
    simp only [Option.bind_some, next, Option.map_some, Cql.Tree.map, Clause.map, literal_escapedTerm]

theorem means_two (hopens : Opens pre c) (hjoins : Joins mid op c') (hnul : NulFree s)
    (hnul' : NulFree s') :
    Means (pre ++ (escapeCqlTerm s ++ '"' :: (mid ++ (escapeCqlTerm s' ++ ['"']))))
      (.node op (.clause (c.map fun _ => s)) (.clause (c'.map fun _ => s'))) ↔
      '\\' ∉ s ∧ '\\' ∉ s' := by
  obtain ⟨fuel, hfuel⟩ : ∃ fuel, 2 * (pre ++ (escapeCqlTerm s ++ '"' ::
      (mid ++ (escapeCqlTerm s' ++ ['"'])))).length + 2 = fuel + 1 + 2 := by
    refine ⟨2 * (pre ++ (escapeCqlTerm s ++ (mid ++ (escapeCqlTerm s' ++ ['"'])))).length + 1, ?_⟩
    simp only [List.length_append, List.length_cons]
    omega
  -- the first clause of a string without a backslash
  have hquery (hs : '\\' ∉ s) : parseQuery (fuel + 1 + 2)
        (pre ++ (escapeCqlTerm s ++ '"' :: (mid ++ (escapeCqlTerm s' ++ ['"'])))) =
      (lexQuoted (escapeCqlTerm s' ++ ['"'])).bind fun r =>
        parseRest (fuel + 1) (.node op (.clause (c.map fun _ => escapedTerm s))
          (.clause (c'.map fun _ => r.1))) r.2 := by
    rw [parseQuery_opens hopens, lexQuoted_escaped_ok hs]
    exact hjoins _ _ _
  constructor
  · intro h
    have hs : '\\' ∉ s := by
      obtain ⟨t, rest, hlex, hl⟩ := means_first hopens rfl rfl h
      exact no_backslash hnul hlex hl
    refine ⟨hs, ?_⟩
    obtain ⟨read, rest, hread, hmap⟩ := means_read h
    rw [hfuel, hquery hs] at hread
    obtain ⟨⟨t, rest1⟩, hlex, hrest⟩ := Option.bind_eq_some_iff.mp hread
    have hleaves := leaves_of_means hmap (parseRest_leaves hrest)
    have hsecond := List.cons_prefix_cons.mp (List.cons_prefix_cons.mp hleaves).2
    exact no_backslash hnul' hlex (congrArg Clause.term hsecond.1)
  · rintro ⟨hs, hs'⟩
    rw [Means, parse, hfuel, hquery hs, lexQuoted_escaped_ok hs']
    simp only [Option.bind_some, parseRest_nil, next, Option.map_some, Cql.Tree.map, Clause.map,
      literal_escapedTerm]

/-! ## The queries of `auth` -/

/-- An index and `==` open a quoted term. -/
theorem opens_equal (index : List Char) (hs : index ≠ []) (h : ∀ c ∈ index, isPlain c = true) :
    Opens (index ++ "==\"".toList) ⟨some index, "==".toList, [], ()⟩ where
  start cs symbol rest heq := by
    rw [List.append_assoc] at heq
    have hword := next_append hs h (d := '=') rfl ('=' :: '"' :: cs)
    rw [show "==\"".toList ++ cs = '=' :: '=' :: '"' :: cs from rfl, hword] at heq
    cases heq
  search cs := by
    have hnext := next_equal ('"' :: cs)
    rw [List.append_assoc, show "==\"".toList ++ cs = '=' :: '=' :: '"' :: cs from rfl,
      parseSearchClause_equal index hs h rfl _ hnext, parseRelated_quote]
    rfl

/-- Blanks in front of a clause do not matter. -/
theorem opens_blank (h : Opens pre c) : Opens (' ' :: pre) c where
  start cs symbol rest := by
    rw [List.cons_append, next_blank rfl]
    exact h.start cs symbol rest
  search cs := by
    rw [List.cons_append, parseSearchClause, parseTerm_blank rfl]
    exact h.search cs

theorem opens_userName :
    Opens "userName==\"".toList ⟨some "userName".toList, "==".toList, [], ()⟩ :=
  opens_equal "userName".toList (by decide) (List.all_eq_true.mp rfl)

theorem joins_password : Joins " and password==\"".toList "and".toList
    ⟨some "password".toList, "==".toList, [], ()⟩ := by
  have hopens := opens_blank (opens_equal "password".toList (by decide) (List.all_eq_true.mp rfl))
  refine hopens.joins (t := plainTerm "and".toList) " and".toList ?_ (by decide)
  intro cs
  rw [show " and".toList = ' ' :: "and".toList from rfl, List.cons_append, next_blank rfl]
  exact next_append (by decide) (List.all_eq_true.mp rfl) rfl _

theorem next_quote_blank (symbol cs rest : List Char) :
    next (' ' :: '"' :: cs) ≠ some (.symbol symbol, rest) := by
  rw [next_blank rfl]
  exact next_quote_symbol symbol rest

theorem joins_hostName : Joins " AND hostName == \"".toList "and".toList
    ⟨some "hostName".toList, "==".toList, [], ()⟩ := by
  have hname : Opens "hostName == \"".toList ⟨some "hostName".toList, "==".toList, [], ()⟩ := by
    refine ⟨?_, ?_⟩
    · intro cs symbol rest
      exact next_append_symbol (s := "hostName".toList) (by decide) (List.all_eq_true.mp rfl) rfl
        ("== \"".toList ++ cs) symbol rest
    · intro cs
      have hnext : next (' ' :: ("== \"".toList ++ cs)) =
          some (.symbol ['=', '='], ' ' :: '"' :: cs) := by
        rw [next_blank rfl]
        exact next_equal _
      have hsearch := parseSearchClause_equal "hostName".toList (by decide) (List.all_eq_true.mp rfl)
        rfl _ hnext
      rw [parseRelated_term (next_quote_blank _ _), parseTerm_blank rfl, parseTerm_quote] at hsearch
      exact hsearch
  have hopens := opens_blank hname
  refine hopens.joins (t := plainTerm "AND".toList) " AND".toList ?_ (by decide)
  intro cs
  rw [show " AND".toList = ' ' :: "AND".toList from rfl, List.cons_append, next_blank rfl]
  exact next_append (by decide) (List.all_eq_true.mp rfl) rfl _

theorem opens_ipRanges : Opens "ipRanges encloses/net.ipaddress \"".toList
    ⟨some "ipRanges".toList, "encloses".toList, ["net.ipaddress".toList], ()⟩ where
  start cs symbol rest :=
    next_append_symbol (s := "ipRanges".toList) (by decide) (List.all_eq_true.mp rfl) rfl
      ("encloses/net.ipaddress \"".toList ++ cs) symbol rest
  search cs := by
    have hindex : parseTerm ("ipRanges encloses/net.ipaddress \"".toList ++ cs) =
        some (plainTerm "ipRanges".toList, " encloses/net.ipaddress \"".toList ++ cs) :=
      parseTerm_append (s := "ipRanges".toList) (by decide) (List.all_eq_true.mp rfl) rfl _
    have hrelation : next (" encloses/net.ipaddress \"".toList ++ cs) =
        some (.word (plainTerm "encloses".toList), "/net.ipaddress \"".toList ++ cs) :=
      (next_blank rfl _).trans
        (next_append (s := "encloses".toList) (by decide) (List.all_eq_true.mp rfl) rfl _)
    have hslash : next ("/net.ipaddress \"".toList ++ cs) =
        some (.symbol ['/'], "net.ipaddress \"".toList ++ cs) := next_slash _
    have hname : next ("net.ipaddress \"".toList ++ cs) =
        some (.word (plainTerm "net.ipaddress".toList), ' ' :: '"' :: cs) :=
      next_append (s := "net.ipaddress".toList) (by decide) (List.all_eq_true.mp rfl) rfl _
    have hmod (fuel : Nat) : parseModifiers (fuel + 1) ("/net.ipaddress \"".toList ++ cs) =
        some (["net.ipaddress".toList], ' ' :: '"' :: cs) := by
      rw [parseModifiers, hslash]
      simp only [if_true, hname, parseModifiers_none (next_quote_blank _ _), spelled_plainTerm]
      rfl
    have hlen : ("/net.ipaddress \"".toList ++ cs).length = cs.length + 15 + 1 := by
      rw [List.length_append, Nat.add_comm]
      rfl
    rw [parseSearchClause, hindex, Option.bind_some]
    simp only [hrelation]
    rw [if_neg (by decide), parseRelated, hlen, hmod, Option.bind_some, parseTerm_blank rfl,
      parseTerm_quote, spelled_plainTerm, spelled_plainTerm]
    rfl

/-- The query of `auth` means what it should exactly when the strings in it have no backslash. -/
theorem authQuery_iff {user password ip hostname : List Char} (huser : NulFree user)
    (hpassword : NulFree password) (hip : NulFree ip) (hhostname : NulFree hostname) :
    Means (authQuery user password ip hostname).1 (authTree user password ip hostname) ↔
      if user ≠ [] ∧ password ≠ [] then '\\' ∉ user ∧ '\\' ∉ password
      else '\\' ∉ ip ∧ '\\' ∉ hostname := by
  unfold authQuery authTree
  by_cases hcred : user ≠ [] ∧ password ≠ []
  · rw [if_pos hcred, if_pos hcred, if_pos hcred]
    exact means_two opens_userName joins_password huser hpassword
  · rw [if_neg hcred, if_neg hcred, if_neg hcred]
    by_cases hhost : hostname ≠ []
    · rw [if_pos hhost, if_pos hhost]
      exact means_two opens_ipRanges joins_hostName hip hhostname
    · have hnil : hostname = [] := by simpa using hhost
      subst hnil
      rw [if_neg hhost, if_neg hhost]
      exact (means_one opens_ipRanges hip).trans ⟨fun h => ⟨h, List.not_mem_nil⟩, And.left⟩

/-! ## The query for a database -/

/-- A name that stands for itself without quotes. -/
def PlainName (name : List Char) : Prop := name ≠ [] ∧ ∀ c ∈ name, isPlain c = true

theorem torusQuery_iff (torusDb : List Char) :
    Means (torusQuery torusDb) (torusTree torusDb) ↔ PlainName torusDb := by
  have hsearch : parseSearchClause (torusQuery torusDb) =
      parseRelated "udb".toList "==".toList torusDb :=
    parseSearchClause_equal "udb".toList (by decide) (List.all_eq_true.mp rfl) rfl _ (next_equal _)
  have hread (fuel : Nat) : parseClause (fuel + 1) (torusQuery torusDb) =
      (parseRelated "udb".toList "==".toList torusDb).map fun r => (.clause r.1, r.2) := by
    rw [parseClause_search, hsearch]
    intro symbol rest
    exact next_append_symbol (s := "udb".toList) (by decide) (List.all_eq_true.mp rfl) rfl _ symbol rest
  constructor
  · intro h
    obtain ⟨read, rest, hquery, hmap⟩ := means_read h
    rw [parseQuery, hread] at hquery
    obtain ⟨⟨tree, rest1⟩, hclause, hrest⟩ := Option.bind_eq_some_iff.mp hquery
    obtain ⟨⟨clause, rest2⟩, hrelated, heq⟩ := Option.map_eq_some_iff.mp hclause
    cases heq
    obtain ⟨⟨modifiers, rest3⟩, hmod, hlast⟩ := Option.bind_eq_some_iff.mp hrelated
    obtain ⟨⟨t, rest4⟩, hterm, heq⟩ := Option.map_eq_some_iff.mp hlast
    cases heq
    have hleaves := List.cons_prefix_cons.mp (leaves_of_means hmap (parseRest_leaves hrest))
    have hnil : modifiers = [] := congrArg Clause.modifiers hleaves.1
    have hl : literal t = some torusDb := congrArg Clause.term hleaves.1
    subst hnil
    rw [parseModifiers_nil hmod] at hterm
    exact plain_of_parseTerm hterm hl
  · rintro ⟨hne, hplain⟩
    have hnext := next_plain hne hplain
    have hterm : parseTerm torusDb = some (plainTerm torusDb, []) := by
      rw [parseTerm, hnext]
    have hrelated : parseRelated "udb".toList "==".toList torusDb =
        some (⟨some "udb".toList, "==".toList, [], plainTerm torusDb⟩, []) := by
      rw [parseRelated_term, hterm]
      · rfl
      · intro rest heq
        rw [hnext] at heq
        cases heq
    have hmask : ∀ c ∈ torusDb, isMask c = false := by
      intro c hc
      have hc := hplain c hc
      simp only [isPlain, Bool.and_eq_true, Bool.not_eq_true'] at hc
      exact hc.2
    rw [Means, parse, parseQuery, hread, hrelated]
    simp only [Option.map_some, Option.bind_some, parseRest_nil, next, Cql.Tree.map, Clause.map,
      literal_plainTerm hmask]
    rfl

/-- The queries for the Torus have the intended structure, with terms that stand for the strings
given, exactly when the strings that the query of `auth` quotes have no backslash and the name of
the database is a plain word. -/
theorem torus_queries_iff (user password ip hostname torusDb : List Char) (huser : NulFree user)
    (hpassword : NulFree password) (hip : NulFree ip) (hhostname : NulFree hostname) :
    (Means (authQuery user password ip hostname).1 (authTree user password ip hostname) ↔
      if user ≠ [] ∧ password ≠ [] then '\\' ∉ user ∧ '\\' ∉ password
      else '\\' ∉ ip ∧ '\\' ∉ hostname) ∧
    (Means (torusQuery torusDb) (torusTree torusDb) ↔ PlainName torusDb) :=
  ⟨authQuery_iff huser hpassword hip hhostname, torusQuery_iff torusDb⟩

theorem torus_queries_iff_plain :
    (Means (authQuery "u".toList "p*".toList [] []).1 (authTree "u".toList "p*".toList [] []) ↔
      if "u".toList ≠ [] ∧ "p*".toList ≠ [] then '\\' ∉ "u".toList ∧ '\\' ∉ "p*".toList
      else '\\' ∉ [] ∧ '\\' ∉ []) ∧
    (Means (torusQuery "db".toList) (torusTree "db".toList) ↔ PlainName "db".toList) :=
  torus_queries_iff "u".toList "p*".toList [] [] "db".toList (by decide) (by decide) (by decide)
    (by decide)

/-- The password `x\" or userName==admin or a==b\` makes the query one for the user `admin` as well,
and the database name `a or udb==b` one for two databases. -/
theorem torus_query_injected :
    (parse (authQuery "u".toList "x\\\" or userName==admin or a==b\\".toList [] []).1).map
        (Cql.Tree.map literal) =
      some (.node "or".toList
        (.node "or".toList
          ((authTree "u".toList "x\\".toList [] []).map some)
          ((relates "userName" "==" "admin".toList).map some))
        ((relates "a" "==" "b\"".toList).map some)) ∧
    ¬ Means (authQuery "u".toList "x\\\" or userName==admin or a==b\\".toList [] []).1
      (authTree "u".toList "x\\\" or userName==admin or a==b\\".toList [] []) ∧
    (parse (torusQuery "a or udb==b".toList)).map (Cql.Tree.map literal) =
      some (.node "or".toList ((relates "udb" "==" "a".toList).map some)
        ((relates "udb" "==" "b".toList).map some)) ∧
    ¬ Means (torusQuery "a or udb==b".toList) (torusTree "a or udb==b".toList) := by
  refine ⟨?_, ?_, ?_, ?_⟩ <;> decide +kernel

end Zoom
end Metaproxy
