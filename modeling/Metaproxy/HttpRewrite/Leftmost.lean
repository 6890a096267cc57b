import Metaproxy.HttpRewrite.Progress
import Metaproxy.Lib.Outcome

/-!
# HttpRewrite.Leftmost

What `test_patterns` makes of a text: match after match, the first one of those behind the match
before it, each with its recipe in its place.

* `Turns` — the matches of a text, as a relation.
* `testPatterns_rewrites` — `test_patterns` takes them, and puts the text together from them.
-/

namespace Metaproxy
namespace HttpRewrite

open Lib

variable {ρ : Type}

/-! ## The matches of a text -/

section Matches

variable (boost : Boost ρ)

/-- The rewrite may match here, and does so first at `what`. -/
def Finds (start : List Char) (first : Bool) (bit : Replace ρ) (what : Match) : Prop :=
  (bit.startAnchor = true → first = true) ∧ boost.regexSearch bit.re start = some what

/-- No rewrite finds a match in front of `what`, and none before `bit` finds one where it is. -/
def Leftmost (rule : Rule ρ) (start : List Char) (first : Bool) (bit : Replace ρ) (what : Match) :
    Prop :=
  ∃ earlier later, rule = earlier ++ bit :: later ∧ Finds boost start first bit what ∧
    (∀ it ∈ earlier, ∀ w, Finds boost start first it w → what.before.length < w.before.length) ∧
    ∀ it ∈ later, ∀ w, Finds boost start first it w → what.before.length ≤ w.before.length

/-- The variables as the named groups leave them: of several groups of one name the last counts. -/
structure Updated (index : Table Nat (List Char)) (groups : List (List Char)) (vars vars' : Vars) :
    Prop where
  named : ∀ k name value, index.lookup (k + 1) = some name → groups[k]? = some value →
    (∀ j, k < j → j < groups.length → index.lookup (j + 1) ≠ some name) →
      vars'.lookup name = some value
  others : ∀ name, (∀ k < groups.length, index.lookup (k + 1) ≠ some name) →
    vars'.lookup name = vars.lookup name

/-- A recipe with the values of its references. A variable without a value has none. -/
inductive Expands (vars : Vars) : List Char → List Char → Prop where
  | nil : Expands vars [] []
  | plain {c : Char} {s out : List Char} :
      c ≠ '\\' → c ≠ '$' → Expands vars s out → Expands vars (c :: s) (c :: out)
  | escaped {c : Char} {s out : List Char} :
      Expands vars s out → Expands vars ('\\' :: c :: s) (c :: out)
  | trailing : Expands vars ['\\'] []
  | var {name s out : List Char} :
      '}' ∉ name → Expands vars s out →
        Expands vars ('$' :: '{' :: (name ++ '}' :: s)) ((vars.lookup name).getD [] ++ out)

/-- What takes the place of a match. One that is skipped is copied. -/
inductive Instead (copy : List Char → List Char) (skips : List ρ) (vars : Vars) (bit : Replace ρ)
    (what : Match) : List Char → Prop where
  | skipped {si : ρ} :
      si ∈ skips → (boost.regexSearch si what.matched).isSome = true →
        Instead copy skips vars bit what (copy what.matched)
  | expanded {out : List Char} :
      (∀ si ∈ skips, boost.regexSearch si what.matched = none) → Expands vars bit.recipe out →
        Instead copy skips vars bit what out

/-- A match, with the text in front of it and what takes its place. -/
structure Turn where
  before : List Char
  matched : List Char
  replacement : List Char

inductive Turns (copy : List Char → List Char) (rule : Rule ρ) (skips : List ρ) :
    Bool → Vars → List Char → List Turn → List Char → Vars → Prop where
  | last {first : Bool} {vars : Vars} {txt : List Char} :
      (∀ bit ∈ rule, ∀ what, ¬ Finds boost txt first bit what) →
        Turns copy rule skips first vars txt [] txt vars
  | next {first : Bool} {vars vars1 vars' : Vars} {txt s last : List Char} {turns : List Turn}
      {bit : Replace ρ} {what : Match} :
      Leftmost boost rule txt first bit what →
        Updated bit.groupIndex what.groups vars vars1 →
        Instead boost copy skips vars1 bit what s →
        Turns copy rule skips false vars1 what.after turns last vars' →
        Turns copy rule skips first vars txt (⟨what.before, what.matched, s⟩ :: turns) last vars'

def Turn.chars (t : Turn) : List Char := t.before ++ t.matched

def Turn.written (t : Turn) : List Char := t.before ++ t.replacement

/-- `r` is what becomes of `txt` when its matches are replaced, and those skipped are replaced by
what `copy` gives. -/
def Rewrites (copy : List Char → List Char) (rule : Rule ρ) (skips : List ρ) (vars : Vars)
    (txt : List Char) (anchor : Bool) (r : Rewritten) : Prop :=
  ∃ turns last, Turns boost copy rule skips anchor vars txt turns last r.vars ∧
    txt = turns.flatMap Turn.chars ++ last ∧ r.txt = turns.flatMap Turn.written ++ last ∧
    (r.replaces = true ↔ turns ≠ [])

end Matches

variable {boost : Boost ρ} {rule : Rule ρ} {start : List Char} {first : Bool}

/-! ## The match that is chosen -/

theorem search_eq_some_iff {bit : Replace ρ} {what : Match} :
    bit.search boost start first = some what ↔ Finds boost start first bit what := by
  rw [Replace.search, Finds]
  cases bit.startAnchor with
  | false => simp
  | true =>
    cases first with
    | false => simp
    | true => simp

theorem choose_concat (rule : Rule ρ) (it : Replace ρ) :
    choose boost (rule ++ [it]) start first =
      match it.search boost start first with
      | none => choose boost rule start first
      | some what =>
        match choose boost rule start first with
        | none => some (it, what)
        | some (bit, bwhat) =>
          if what.before.length < bwhat.before.length then some (it, what)
          else some (bit, bwhat) := by
  rw [choose, choose, List.foldl_append, List.foldl_cons, List.foldl_nil]
  rcases it.search boost start first with _ | what
  · rfl
  · generalize List.foldl _ none rule = best
    cases best with
    | none => rfl
    | some best => rfl

/-- A rewrite behind the others that finds nothing in front of their match. -/
theorem Leftmost.concat {bit it : Replace ρ} {what : Match}
    (h : Leftmost boost rule start first bit what)
    (hit : ∀ w, Finds boost start first it w → what.before.length ≤ w.before.length) :
    Leftmost boost (rule ++ [it]) start first bit what := by
  obtain ⟨earlier, later, rfl, hfinds, hearlier, hlater⟩ := h
  refine ⟨earlier, later ++ [it], List.append_assoc .., hfinds, hearlier, ?_⟩
  intro it' hmem w hw
  rcases List.mem_append.mp hmem with hmem | hmem
  · exact hlater it' hmem w hw
  · cases List.mem_singleton.mp hmem
    exact hit w hw

theorem Leftmost.le {bit : Replace ρ} {what : Match}
    (h : Leftmost boost rule start first bit what) {it : Replace ρ} (hmem : it ∈ rule) {w : Match}
    (hw : Finds boost start first it w) : what.before.length ≤ w.before.length := by
  obtain ⟨earlier, later, rfl, hfinds, hearlier, hlater⟩ := h
  rcases List.mem_append.mp hmem with hmem | hmem
  · exact (hearlier it hmem w hw).le
  · rcases List.mem_cons.mp hmem with rfl | hmem
    · rw [Option.some.inj (hfinds.2.symm.trans hw.2)]
    · exact hlater it hmem w hw

theorem choose_cases (rule : Rule ρ) :
    (choose boost rule start first = none ∧
      ∀ bit ∈ rule, ∀ what, ¬ Finds boost start first bit what) ∨
    ∃ bit what, choose boost rule start first = some (bit, what) ∧
      Leftmost boost rule start first bit what := by
  induction rule using List.reverseRecOn with
  | nil => exact .inl ⟨rfl, fun bit hbit => by cases hbit⟩
  | append_singleton rule it ih =>
    rw [choose_concat]
    cases hsearch : it.search boost start first with
    | none =>
      have hit : ∀ w, ¬ Finds boost start first it w := by
        intro w hw
        rw [search_eq_some_iff.mpr hw] at hsearch
        cases hsearch
      rcases ih with ⟨hnone, hno⟩ | ⟨bit, what, hsome, hleft⟩
      · refine .inl ⟨hnone, fun bit hbit => ?_⟩
        rcases List.mem_append.mp hbit with hbit | hbit
        · exact hno bit hbit
        · cases List.mem_singleton.mp hbit
          exact hit
      · exact .inr ⟨bit, what, hsome, hleft.concat fun w hw => absurd hw (hit w)⟩
    | some what =>
      have hfinds := search_eq_some_iff.mp hsearch
      rcases ih with ⟨hnone, hno⟩ | ⟨bit, bwhat, hsome, hleft⟩
      · rw [hnone]
        refine .inr ⟨it, what, rfl, rule, [], rfl, hfinds, fun it' hmem w hw => ?_, ?_⟩
        · exact absurd hw (hno it' hmem w)
        · intro it' hmem
          cases hmem
      · rw [hsome]
        simp only
        by_cases hlt : what.before.length < bwhat.before.length
        · rw [if_pos hlt]
          refine .inr ⟨it, what, rfl, rule, [], rfl, hfinds, fun it' hmem w hw => ?_, ?_⟩
          · exact hlt.trans_le (hleft.le hmem hw)
          · intro it' hmem
            cases hmem
        · rw [if_neg hlt]
          refine .inr ⟨bit, bwhat, rfl, hleft.concat fun w hw => ?_⟩
          rw [← Option.some.inj (hfinds.2.symm.trans hw.2)]
          exact not_lt.mp hlt

/-! ## Its groups, and the recipe -/

theorem updated_nil (index : Table Nat (List Char)) (vars : Vars) : Updated index [] vars vars where
  named k name value _ hvalue := by cases hvalue
  others name _ := rfl

/-- The group behind the others. -/
theorem Updated.concat {index : Table Nat (List Char)} {groups : List (List Char)}
    {vars vars' : Vars} (h : Updated index groups vars vars') (group : List Char) :
    Updated index (groups ++ [group]) vars
      (match index.lookup (groups.length + 1) with
        | none => vars'
        | some name => vars'.insert name group) := by
  have hlen : (groups ++ [group]).length = groups.length + 1 := List.length_append
  have hlast : (groups ++ [group])[groups.length]? = some group := List.getElem?_concat_length
  have hbefore : ∀ k < groups.length, (groups ++ [group])[k]? = groups[k]? :=
    fun k hk => List.getElem?_append_left hk
  constructor
  · intro k name value hname hvalue hlater
    have hk : k < groups.length + 1 := by
      rw [← hlen]
      exact (List.getElem?_eq_some_iff.mp hvalue).1
    rcases Nat.lt_succ_iff_lt_or_eq.mp hk with hk | rfl
    · have hrest : vars'.lookup name = some value :=
        h.named k name value hname (hbefore k hk ▸ hvalue) fun j hkj hj => hlater j hkj (by omega)
      have hno := hlater groups.length hk (by omega)
      cases hindex : index.lookup (groups.length + 1) with
      | none => exact hrest
      | some name' =>
        have hne : name ≠ name' := fun heq => hno (by rw [hindex, heq])
        simpa only [AList.lookup_insert_ne hne] using hrest
    · rw [hname]
      rw [hlast] at hvalue
      rw [← Option.some.inj hvalue]
      exact AList.lookup_insert _
  · intro name hno
    have hrest := h.others name fun k hk => hno k (by omega)
    have hlast := hno groups.length (by omega)
    cases hindex : index.lookup (groups.length + 1) with
    | none => exact hrest
    | some name' =>
      have hne : name ≠ name' := fun heq => hlast (by rw [hindex, heq])
      simpa only [AList.lookup_insert_ne hne] using hrest

theorem updated_namedGroups (bit : Replace ρ) (what : Match) (vars : Vars) :
    Updated bit.groupIndex what.groups vars (bit.namedGroups what vars) := by
  rw [Replace.namedGroups]
  induction what.groups using List.reverseRecOn with
  | nil => exact updated_nil _ _
  | append_singleton groups group ih =>
    rw [List.zipIdx_append, List.foldl_append, List.zipIdx_singleton, List.foldl_cons,
      List.foldl_nil, Nat.add_comm 1]
    exact ih.concat group

theorem subVarsLoop_expands (recipe : List Char) (vars : Vars) (i : Nat) (esc : Bool)
    (s : List Char) : ∀ out, subVarsLoop recipe vars i esc s = .ok out →
      Expands vars (if esc then '\\' :: s else s) out := by
  fun_induction subVarsLoop recipe vars i esc s with
  | case1 _ esc =>
    intro out h
    cases h
    cases esc with
    | true => exact .trailing
    | false => exact .nil
  | case2 i esc c s1 hesc ih =>
    simp at hesc
    obtain ⟨rfl, rfl⟩ := hesc
    exact ih
  | case3 _ _ _ _ _ _ _ _ =>
    intro out h
    cases h
  | case4 i esc c s1 _ hvar hopen name d s2 hend _ ih =>
    intro out h
    simp at hvar
    obtain ⟨rfl, rfl⟩ := hvar
    obtain ⟨s3, rfl⟩ := List.head?_eq_some_iff.mp hopen
    obtain ⟨out1, hout1, rfl⟩ := map_eq_ok h
    have hd : d = '}' := by simpa using HTMLParser.dropWhile_head hend
    have hsplit := List.takeWhile_append_dropWhile (p := (· ≠ '}')) (l := s3)
    rw [List.tail_cons] at hend
    rw [hend, hd] at hsplit
    have hname : '}' ∉ name := fun hmem => by simpa using List.mem_takeWhile_imp hmem
    have hvars := Expands.var hname (ih out1 hout1)
    rw [if_neg (by decide), ← hsplit]
    exact hvars
  | case5 _ _ _ _ _ _ _ =>
    intro out h
    cases h
  | case6 i esc c s1 hesc hvar ih =>
    intro out h
    obtain ⟨out1, hout1, rfl⟩ := map_eq_ok h
    cases esc with
    | true => exact .escaped (ih out1 hout1)
    | false =>
      simp at hesc hvar
      exact .plain hesc hvar (ih out1 hout1)

/-! ## The loop -/

/-- The rounds of the loop when there is nothing left to replace. -/
theorem testPatternsLoop_done {skips : List ρ} {vars : Vars}
    (h : choose boost rule start first = none) (n : Nat) (out : List Char) (replaces : Bool) :
    (testPatternsLoop boost rule skips (n + 1) vars start first out replaces).result =
      .ok ⟨out ++ start, vars, replaces⟩ := by
  rw [testPatternsLoop, replaceNext, h, Traced.bind_ok rfl]
  rfl

theorem testPatternsLoop_replaced {skips : List ρ} {vars : Vars} {r : Replaced}
    (h : replaceNext boost rule skips vars start first = .ok (some r)) (n : Nat) (out : List Char)
    (replaces : Bool) :
    (testPatternsLoop boost rule skips (n + 1) vars start first out replaces).result =
      (testPatternsLoop boost rule skips n r.vars r.start false (out ++ r.out) true).result := by
  rw [testPatternsLoop, h, Traced.bind_ok rfl]

/-- A round that replaces a match. -/
theorem replaceNext_instead (skips : List ρ) {copy : List Char → List Char} (vars : Vars)
    {bit : Replace ρ} {what : Match} (hchoose : choose boost rule start first = some (bit, what))
    (hrecipe : WellFormed bit.recipe) (hcopy : copy what.matched = cString what.matched) :
    ∃ s vars1, replaceNext boost rule skips vars start first =
        .ok (some ⟨what.before ++ s, vars1, what.after⟩) ∧
      Updated bit.groupIndex what.groups vars vars1 ∧ Instead boost copy skips vars1 bit what s := by
  obtain ⟨hno, -⟩ | ⟨-, rvalue, hsub⟩ := subVars_cases bit (bit.namedGroups what vars)
  · exact absurd hrecipe hno
  rw [replaceNext, hchoose]
  simp only [hsub]
  by_cases hskip : (skips.any fun si => (boost.regexSearch si what.matched).isSome) = true
  · rw [if_pos hskip, ← hcopy]
    obtain ⟨si, hsi, hfound⟩ := List.any_eq_true.mp hskip
    exact ⟨_, _, rfl, updated_namedGroups bit what vars, .skipped hsi hfound⟩
  · rw [if_neg hskip]
    refine ⟨_, _, rfl, updated_namedGroups bit what vars, .expanded (fun si hsi => ?_) ?_⟩
    · by_contra hfound
      exact hskip (List.any_eq_true.mpr ⟨si, hsi, Option.isSome_iff_ne_none.mpr hfound⟩)
    · exact subVarsLoop_expands _ _ _ _ _ rvalue hsub

section Loop

variable {copy : List Char → List Char} (hrecipes : ∀ bit ∈ rule, WellFormed bit.recipe)
  (hmatches : ∀ bit ∈ rule, ∀ s what, boost.regexSearch bit.re s = some what → what.matched ≠ [])

include hrecipes hmatches

/-- Each match takes at least one character, so there is a round for every one of them. -/
theorem testPatternsLoop_turns (skips : List ρ) (n : Nat) (vars : Vars) (start : List Char) (first : Bool)
    (out : List Char) (replaces : Bool) (hfuel : start.length < n)
    (hcopy : ∀ s, s <:+: start → copy s = cString s) :
    ∃ turns last vars', Turns boost copy rule skips first vars start turns last vars' ∧
      (testPatternsLoop boost rule skips n vars start first out replaces).result =
        .ok ⟨out ++ (turns.flatMap Turn.written ++ last), vars', replaces || !turns.isEmpty⟩ := by
  induction n generalizing vars start first out replaces with
  | zero => exact absurd hfuel (Nat.not_lt_zero _)
  | succ n ih =>
    rcases choose_cases rule with ⟨hnone, hno⟩ | ⟨bit, what, hchoose, hleft⟩
    · refine ⟨[], start, vars, .last hno, ?_⟩
      rw [testPatternsLoop_done hnone]
      simp
    · obtain ⟨hmem, hsearch⟩ := choose_spec hchoose
      have hsplit := split_of_choose hchoose
      have hne := hmatches bit hmem _ _ (search_eq_some_iff.mp hsearch).2
      have hmatched : what.matched <:+: start := ⟨what.before, what.after, hsplit⟩
      have hafter : what.after <:+: start := ⟨what.before ++ what.matched, [], by simpa using hsplit⟩
      have hshort : what.after.length < n := by
        have hlen := congrArg List.length hsplit
        have hpos := List.length_pos_iff.mpr hne
        simp only [List.length_append] at hlen
        omega
      obtain ⟨s, vars1, hnext, hupdated, hinstead⟩ :=
        replaceNext_instead skips vars hchoose (hrecipes bit hmem) (hcopy _ hmatched)
      obtain ⟨turns, last, vars', hturns, hresult⟩ :=
        ih vars1 what.after false (out ++ (what.before ++ s)) true hshort
          fun t ht => hcopy t (ht.trans hafter)
      refine ⟨_, last, vars', .next hleft hupdated hinstead hturns, ?_⟩
      rw [testPatternsLoop_replaced hnext, hresult]
      simp [Turn.written]

end Loop

theorem Leftmost.mem {bit : Replace ρ} {what : Match}
    (h : Leftmost boost rule start first bit what) : bit ∈ rule := by
  obtain ⟨earlier, later, rfl, -⟩ := h
  exact List.mem_append_right _ List.mem_cons_self

theorem Leftmost.finds {bit : Replace ρ} {what : Match}
    (h : Leftmost boost rule start first bit what) : Finds boost start first bit what := by
  obtain ⟨-, -, -, hfinds, -, -⟩ := h
  exact hfinds

theorem Leftmost.split {bit : Replace ρ} {what : Match}
    (h : Leftmost boost rule start first bit what) :
    what.before ++ what.matched ++ what.after = start := by
  exact boost.search_split _ _ _ h.finds.2

/-- The matches and what stands between them are the text. -/
theorem Turns.chars {copy : List Char → List Char} {skips : List ρ} {vars vars' : Vars}
    {txt last : List Char} {turns : List Turn}
    (h : Turns boost copy rule skips first vars txt turns last vars') :
    txt = turns.flatMap Turn.chars ++ last := by
  induction h with
  | last _ => rfl
  | @next first vars vars1 vars' txt s last turns bit what hleft _ _ _ ih =>
    rw [List.flatMap_cons, List.append_assoc, ← ih, ← hleft.split]
    rfl

/-- When all matches are skipped, the text is not changed. -/
theorem Turns.written_of_skipped {skips : List ρ} {vars vars' : Vars} {txt last : List Char}
    {turns : List Turn} (h : Turns boost id rule skips first vars txt turns last vars')
    (hskips : ∀ bit ∈ rule, ∀ s what, boost.regexSearch bit.re s = some what →
      ∃ si ∈ skips, (boost.regexSearch si what.matched).isSome = true) :
    turns.flatMap Turn.written = turns.flatMap Turn.chars := by
  induction h with
  | last _ => rfl
  | @next first vars vars1 vars' txt s last turns bit what hleft _ hinstead _ ih =>
    have hs : s = what.matched := by
      cases hinstead with
      | skipped _ _ => rfl
      | expanded hno _ =>
        obtain ⟨si, hsi, hfound⟩ := hskips bit hleft.mem _ what hleft.finds.2
        rw [hno si hsi] at hfound
        cases hfound
    rw [List.flatMap_cons, List.flatMap_cons, ih, hs]
    rfl

theorem testPatterns_of_copy (copy : List Char → List Char)
    (hrecipes : ∀ bit ∈ rule, WellFormed bit.recipe)
    (hmatches : ∀ bit ∈ rule, ∀ s what, boost.regexSearch bit.re s = some what →
      what.matched ≠ []) (skips : List ρ) (vars : Vars) (txt : List Char) (anchor : Bool)
    (fuel : Nat) (hfuel : txt.length < fuel) (hcopy : ∀ s, s <:+: txt → copy s = cString s) :
    ∃ r, (testPatterns boost ⟨fuel, skips⟩ rule vars txt anchor).result = .ok r ∧
      Rewrites boost copy rule skips vars txt anchor r := by
  obtain ⟨turns, last, vars', hturns, hresult⟩ :=
    testPatternsLoop_turns hrecipes hmatches skips fuel vars txt anchor [] false hfuel hcopy
  refine ⟨_, hresult, turns, last, hturns, hturns.chars, rfl, ?_⟩
  cases turns with
  | nil => simp
  | cons t turns => simp

/-- The leftmost matches are replaced one after the other, and nothing else. A match that is skipped
is copied up to its first NUL, so as it is in a text that has none. -/
theorem testPatterns_rewrites (boost : Boost ρ) (rule : Rule ρ)
    (hrecipes : ∀ bit ∈ rule, WellFormed bit.recipe)
    (hmatches : ∀ bit ∈ rule, ∀ s what, boost.regexSearch bit.re s = some what →
      what.matched ≠ []) (skips : List ρ) (vars : Vars) (txt : List Char) (anchor : Bool)
    (fuel : Nat) (hfuel : txt.length < fuel) :
    ∃ r, (testPatterns boost ⟨fuel, skips⟩ rule vars txt anchor).result = .ok r ∧
      Rewrites boost cString rule skips vars txt anchor r ∧
      ('\x00' ∉ txt → Rewrites boost id rule skips vars txt anchor r) := by
  obtain ⟨r, hr, hrewrites⟩ :=
    testPatterns_of_copy cString hrecipes hmatches skips vars txt anchor fuel hfuel fun _ _ => rfl
  refine ⟨r, hr, hrewrites, fun hnul => ?_⟩
  have hcopy : ∀ s, s <:+: txt → id s = cString s :=
    fun s hs => (cString_eq_self fun hmem => hnul (hs.subset hmem)).symm
  obtain ⟨r', hr', hrewrites'⟩ :=
    testPatterns_of_copy id hrecipes hmatches skips vars txt anchor fuel hfuel hcopy
  cases hr.symm.trans hr'
  exact hrewrites'

/-! ### Two rules -/

theorem find_matched {re text : List Char} {what : Match} (h : find re text = some what) :
    what.matched = re := by
  induction text generalizing what with
  | nil =>
    rw [find] at h
    split at h
    · rename_i hre
      cases h
      exact hre.symm
    · cases h
  | cons c text ih =>
    rw [find] at h
    split at h
    · cases h
      rfl
    · obtain ⟨what', hwhat', rfl⟩ := Option.map_eq_some_iff.mp h
      exact @ih what' hwhat'

/-- `ab` at the start only, and `b`. -/
def abRule : Rule (List Char) := [⟨true, ['a', 'b'], ['1'], ∅⟩, ⟨false, ['b'], ['2'], ∅⟩]

theorem wellFormed_digit {c : Char} (h : c.isDigit = true) : WellFormed [c] := by
  refine .plain ?_ ?_ .nil
  · rintro rfl
    cases h
  · rintro rfl
    cases h

theorem testPatterns_rewrites_abab :
    ∃ r, (testPatterns literal ⟨5, []⟩ abRule ∅ "abab".toList true).result = .ok r ∧
      r.txt = "1a2".toList ∧ Rewrites literal id abRule [] ∅ "abab".toList true r := by
  have hrecipes : ∀ bit ∈ abRule, WellFormed bit.recipe := by
    simp only [abRule, List.mem_cons, List.not_mem_nil, or_false, forall_eq_or_imp, forall_eq]
    exact ⟨wellFormed_digit rfl, wellFormed_digit rfl⟩
  have hmatches : ∀ bit ∈ abRule, ∀ s what, literal.regexSearch bit.re s = some what →
      what.matched ≠ [] := by
    have hre : ∀ bit ∈ abRule, bit.re ≠ [] := by decide
    intro bit hbit s what hfound
    rw [find_matched hfound]
    exact hre bit hbit
  obtain ⟨r, hr, -, hrewrites⟩ := testPatterns_rewrites literal abRule hrecipes hmatches [] ∅
    "abab".toList true 5 (by decide)
  refine ⟨r, hr, ?_, hrewrites (by decide)⟩
  have htxt : (testPatterns literal ⟨5, []⟩ abRule ∅ "abab".toList true).result.toOption.map
      Rewritten.txt = some "1a2".toList := by decide +kernel
  rw [hr] at htxt
  exact Option.some.inj htxt

/-- A pattern with a NUL in it. -/
def nulRule : Rule (List Char) := [⟨false, ['a', '\x00'], ['1'], ∅⟩]

/-- A match that is skipped loses its NUL, and what stands behind it. -/
theorem not_rewrites_nul :
    (∀ bit ∈ nulRule, WellFormed bit.recipe) ∧
      (∀ bit ∈ nulRule, ∀ s what, literal.regexSearch bit.re s = some what → what.matched ≠ []) ∧
      ∃ r, (testPatterns literal ⟨3, [['a']]⟩ nulRule ∅ ['a', '\x00'] true).result = .ok r ∧
        r.txt = ['a'] ∧ ¬ Rewrites literal id nulRule [['a']] ∅ ['a', '\x00'] true r := by
  have hmatched : ∀ bit ∈ nulRule, ∀ s what, literal.regexSearch bit.re s = some what →
      what.matched = ['a', '\x00'] := by
    intro bit hbit s what hfound
    rw [find_matched hfound, List.mem_singleton.mp hbit]
  have hrecipes : ∀ bit ∈ nulRule, WellFormed bit.recipe := by
    intro bit hbit
    rw [List.mem_singleton.mp hbit]
    exact wellFormed_digit rfl
  have hmatches : ∀ bit ∈ nulRule, ∀ s what, literal.regexSearch bit.re s = some what →
      what.matched ≠ [] := by
    intro bit hbit s what hfound
    rw [hmatched bit hbit s what hfound]
    exact List.cons_ne_nil _ _
  obtain ⟨r, hr, -⟩ := testPatterns_of_copy cString hrecipes hmatches [['a']] ∅ ['a', '\x00'] true
    3 (by decide) fun _ _ => rfl
  refine ⟨hrecipes, hmatches, r, hr, ?_⟩
  have htxt : r.txt = ['a'] := by
    have hresult : (testPatterns literal ⟨3, [['a']]⟩ nulRule ∅ ['a', '\x00']
        true).result.toOption.map Rewritten.txt = some ['a'] := by decide +kernel
    rw [hr] at hresult
    exact Option.some.inj hresult
  refine ⟨htxt, ?_⟩
  rintro ⟨turns, last, hturns, hchars, hwritten, -⟩
  have hsame := hturns.written_of_skipped fun bit hbit s what hfound =>
    ⟨['a'], List.mem_cons_self, by rw [hmatched bit hbit s what hfound]; decide⟩
  rw [hsame, ← hchars, htxt] at hwritten
  cases hwritten

end HttpRewrite
end Metaproxy
