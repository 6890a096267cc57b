import Metaproxy.HttpRewrite.Exceptions
import Metaproxy.Lib.Progress

/-!
# HttpRewrite.Progress

How many rounds the loop of `test_patterns` takes. The next one goes on behind the match, which is
where it stands already when the match is empty and nothing is in front of it.

* `testPatternsLoop_ends_iff` — only the places where the rounds start matter, not the variables.
* `testPatterns_ends_iff` — when there are no more rounds than characters, and one.
-/

namespace Metaproxy
namespace HttpRewrite

open Lib

variable {ρ : Type} (boost : Boost ρ) (rule : Rule ρ)

/-- The round at `start` replaces a match, and the next one is at `start'`. -/
def GoesOn (start : List Char) (first : Bool) (start' : List Char) : Prop :=
  ∃ bit what, choose boost rule start first = some (bit, what) ∧ WellFormed bit.recipe ∧
    what.after = start'

/-- A round after the first one is at `start`. -/
def Later (txt : List Char) (anchor : Bool) (start : List Char) : Prop :=
  ∃ start', GoesOn boost rule txt anchor start' ∧
    Relation.ReflTransGen (fun s s' => GoesOn boost rule s false s') start' start

structure Progresses (txt : List Char) (anchor : Bool) : Prop where
  /-- After the first one, no round goes on where it is. -/
  moves : ∀ start, Later boost rule txt anchor start → ¬ GoesOn boost rule start false start
  /-- If the first one does, then not each one after it goes on by a character. -/
  jumps : GoesOn boost rule txt anchor txt →
    ∃ k < txt.length, ¬ GoesOn boost rule (txt.drop k) false (txt.drop (k + 1))

/-- Where the next round is, if this one is not the last. -/
def nextStart (start : List Char) (first : Bool) : Option (List Char) :=
  match choose boost rule start first with
  | none => none
  | some (bit, what) =>
    match bit.subVars ∅ with
    | .error _ => none
    | .ok _ => some what.after

variable {boost rule} {start start' : List Char} {first : Bool}

theorem subVars_cases (r : Replace ρ) (vars : Vars) :
    (¬ WellFormed r.recipe ∧ ∃ e, r.subVars vars = .error e) ∨
    (WellFormed r.recipe ∧ ∃ rvalue, r.subVars vars = .ok rvalue) := by
  have hthrows := subVars_throws_iff r vars
  cases hsub : r.subVars vars with
  | error e => exact .inl ⟨hthrows.mp ⟨e, hsub⟩, e, rfl⟩
  | ok rvalue =>
    refine .inr ⟨?_, rvalue, rfl⟩
    by_contra hwell
    obtain ⟨e, he⟩ := hthrows.mpr hwell
    rw [hsub] at he
    cases he

theorem nextStart_eq_some_iff :
    nextStart boost rule start first = some start' ↔ GoesOn boost rule start first start' := by
  rw [nextStart, GoesOn]
  cases choose boost rule start first with
  | none => simp
  | some p =>
    rcases subVars_cases p.1 ∅ with ⟨hwell, e, hsub⟩ | ⟨hwell, rvalue, hsub⟩
    · simp only [hsub]
      refine iff_of_false (fun h => by cases h) ?_
      rintro ⟨bit, what, hp, hbit, -⟩
      cases hp
      exact hwell hbit
    · simp only [hsub, Option.some.injEq]
      constructor
      · exact fun h => ⟨p.1, p.2, rfl, hwell, h⟩
      · rintro ⟨bit, what, hp, -, hafter⟩
        cases hp
        exact hafter

theorem suffix_of_goesOn (h : GoesOn boost rule start first start') : start' <:+ start := by
  obtain ⟨bit, what, hchoose, -, rfl⟩ := h
  exact ⟨_, split_of_choose hchoose⟩

/-- A round, whatever the variables are. -/
theorem replaceNext_cases (skips : List ρ) (vars : Vars) :
    (nextStart boost rule start first = none ∧
      (replaceNext boost rule skips vars start first = .ok none ∨
        ∃ e, replaceNext boost rule skips vars start first = .error (.thrown e))) ∨
    ∃ r, nextStart boost rule start first = some r.start ∧
      replaceNext boost rule skips vars start first = .ok (some r) := by
  rw [nextStart, replaceNext]
  cases choose boost rule start first with
  | none => exact .inl ⟨rfl, .inl rfl⟩
  | some p =>
    simp only
    rcases subVars_cases p.1 ∅ with ⟨hwell, e, hsub⟩ | ⟨hwell, rvalue, hsub⟩
    · rcases subVars_cases p.1 (p.1.namedGroups p.2 vars) with ⟨-, e', hsub'⟩ | ⟨hwell', -⟩
      · rw [hsub, hsub']
        exact .inl ⟨rfl, .inr ⟨e', rfl⟩⟩
      · exact absurd hwell' hwell
    · rcases subVars_cases p.1 (p.1.namedGroups p.2 vars) with ⟨hwell', -⟩ | ⟨-, rvalue', hsub'⟩
      · exact absurd hwell hwell'
      · rw [hsub, hsub']
        exact .inr ⟨_, rfl, rfl⟩

/-! ## The loop -/

section Loop

variable (boost rule)

/-- A round after the first one. -/
def laterStep (start : List Char) : Option (List Char) := nextStart boost rule start false

variable {boost rule} {skips : List ρ}

theorem testPatternsLoop_last {vars : Vars} (h : nextStart boost rule start first = none) (n : Nat)
    (out : List Char) (replaces : Bool) :
    (testPatternsLoop boost rule skips (n + 1) vars start first out replaces).result ≠
      .error .unfinished := by
  rw [testPatternsLoop]
  rcases replaceNext_cases skips vars with ⟨-, hnext | ⟨e, hnext⟩⟩ | ⟨r, hsome, -⟩
  · rw [hnext, Traced.bind_ok rfl]
    intro heq
    cases heq
  · rw [hnext, Traced.bind_error rfl]
    intro heq
    cases heq
  · rw [h] at hsome
    cases hsome

theorem testPatternsLoop_next (skips : List ρ) (vars : Vars)
    (h : nextStart boost rule start first = some start') (n : Nat) (out : List Char)
    (replaces : Bool) :
    ∃ vars' out', (testPatternsLoop boost rule skips (n + 1) vars start first out replaces).result =
      (testPatternsLoop boost rule skips n vars' start' false out' true).result := by
  rw [testPatternsLoop]
  rcases replaceNext_cases skips vars with ⟨hnone, -⟩ | ⟨r, hsome, hnext⟩
  · rw [h] at hnone
    cases hnone
  · obtain rfl := Option.some.inj (h.symm.trans hsome)
    rw [hnext, Traced.bind_ok rfl]
    exact ⟨_, _, rfl⟩

/-- One more round, given what the rounds after it come to. -/
theorem testPatternsLoop_succ {n : Nat}
    (hrest : ∀ vars start out replaces,
      (testPatternsLoop boost rule skips n vars start false out replaces).result ≠
        .error .unfinished ↔ EndsWithin (laterStep boost rule) n start)
    (vars : Vars) (start : List Char) (first : Bool) (out : List Char) (replaces : Bool) :
    (testPatternsLoop boost rule skips (n + 1) vars start first out replaces).result ≠
      .error .unfinished ↔
    ∀ start', nextStart boost rule start first = some start' →
      EndsWithin (laterStep boost rule) n start' := by
  cases hstart : nextStart boost rule start first with
  | none => exact iff_of_true (testPatternsLoop_last hstart n out replaces) fun _ h => by cases h
  | some start' =>
    obtain ⟨vars', out', hnext⟩ := testPatternsLoop_next skips vars hstart n out replaces
    rw [hnext, hrest]
    constructor
    · intro h s hs
      obtain rfl := Option.some.inj hs
      exact h
    · intro h
      exact h start' rfl

theorem testPatternsLoop_ends_iff (skips : List ρ) (n : Nat) (vars : Vars) (start : List Char)
    (out : List Char) (replaces : Bool) :
    (testPatternsLoop boost rule skips n vars start false out replaces).result ≠
      .error .unfinished ↔ EndsWithin (laterStep boost rule) n start := by
  induction n generalizing vars start out replaces with
  | zero => exact iff_of_false (fun h => h rfl) id
  | succ n ih => exact testPatternsLoop_succ ih vars start false out replaces

theorem laterStep_lt (s s' : List Char) (h : laterStep boost rule s = some s') :
    s' = s ∨ s'.length < s.length := by
  have hsuffix := suffix_of_goesOn (nextStart_eq_some_iff.mp h)
  rcases hsuffix.length_le.eq_or_lt with hlen | hlt
  · exact .inl (hsuffix.eq_of_length hlen)
  · exact .inr hlt

/-- One character after the other. -/
theorem byOne_iff (s : List Char) : ByOne (laterStep boost rule) List.length s.length s ↔
    ∀ k < s.length, GoesOn boost rule (s.drop k) false (s.drop (k + 1)) := by
  induction s with
  | nil => exact iff_of_true trivial fun k hk => absurd hk (Nat.not_lt_zero k)
  | cons c s ih =>
    rw [List.length_cons, Nat.forall_lt_succ_left, ByOne]
    constructor
    · rintro ⟨s', hs', hlen, hone⟩
      have hgoes := nextStart_eq_some_iff.mp hs'
      have hs : s <:+ c :: s := List.suffix_cons c s
      obtain rfl : s' = s := (List.suffix_of_suffix_length_le (suffix_of_goesOn hgoes) hs
        hlen.le).eq_of_length hlen
      exact ⟨hgoes, ih.mp hone⟩
    · rintro ⟨hgoes, hrest⟩
      exact ⟨s, nextStart_eq_some_iff.mpr hgoes, rfl, ih.mpr hrest⟩

theorem moves_iff : Moves (laterStep boost rule) start ↔
    ∀ s, Relation.ReflTransGen (fun s s' => GoesOn boost rule s false s') start s →
      ¬ GoesOn boost rule s false s := by
  have hrel : (fun s s' => laterStep boost rule s = some s') =
      fun s s' => GoesOn boost rule s false s' := by
    funext s s'
    exact propext nextStart_eq_some_iff
  rw [Moves, ComesTo, hrel]
  exact forall_congr' fun s => imp_congr_right fun _ => not_congr nextStart_eq_some_iff

end Loop

/-- For every rule, text and anchor flag, whatever the variables and the skip list: the loop ends
after at most one round for each character, and one, if and only if it progresses. -/
theorem testPatterns_ends_iff (boost : Boost ρ) (rule : Rule ρ) (skips : List ρ) (vars : Vars)
    (txt : List Char) (anchor : Bool) :
    (testPatterns boost ⟨txt.length + 1, skips⟩ rule vars txt anchor).result ≠
      .error .unfinished ↔ Progresses boost rule txt anchor := by
  rw [testPatterns, testPatternsLoop_succ (testPatternsLoop_ends_iff skips txt.length)]
  constructor
  · intro h
    constructor
    · rintro start ⟨start', hgoes, hcomes⟩
      exact moves_iff.mp (h start' (nextStart_eq_some_iff.mpr hgoes)).moves start hcomes
    · intro hgoes
      have hends := h txt (nextStart_eq_some_iff.mpr hgoes)
      have hone := ((endsWithin_measure_iff laterStep_lt rfl).mp hends).2
      rw [byOne_iff] at hone
      simpa only [not_forall, exists_prop] using hone
  · rintro ⟨hmoves, hjumps⟩ start' hstart'
    have hgoes := nextStart_eq_some_iff.mp hstart'
    have hlater : Moves (laterStep boost rule) start' :=
      moves_iff.mpr fun s hs => hmoves s ⟨start', hgoes, hs⟩
    have hsuffix := suffix_of_goesOn hgoes
    rcases hsuffix.length_le.eq_or_lt with hlen | hlt
    · obtain rfl := hsuffix.eq_of_length hlen
      refine (endsWithin_measure_iff laterStep_lt rfl).mpr ⟨hlater, fun hone => ?_⟩
      obtain ⟨k, hk, hnot⟩ := hjumps hgoes
      exact hnot (byOne_iff start' |>.mp hone k hk)
    · exact (endsWithin_iff laterStep_lt hlt).mpr hlater

/-! ## A rule that may match nothing -/

/-- Patterns such as `x*`. -/
def star : Boost (Option Char) where
  compile _ pattern :=
    match pattern with
    | [c, '*'] => if c.isAlphanum then some (some c) else none
    | _ => none
  unset := none
  regexSearch re text := re.map fun c =>
    ⟨[], text.takeWhile (· = c), text.dropWhile (· = c), []⟩
  regexMatch re text := re.any fun c => text.all (· = c)
  search_split re text what h := by
    obtain ⟨c, -, rfl⟩ := Option.map_eq_some_iff.mp h
    exact List.takeWhile_append_dropWhile

/-- `x*` is rewritten to `y`. -/
def starRule : Rule (Option Char) := [⟨false, some 'x', "y".toList, ∅⟩]

/-- The match in front of the `a` is empty, and it is found again and again. -/
theorem testPatterns_not_ends :
    (testPatterns star ⟨"a".toList.length + 1, []⟩ starRule ∅ "a".toList false).result =
      .error .unfinished ∧
    ¬ ∃ fuel, (testPatterns star ⟨fuel, []⟩ starRule ∅ "a".toList false).result ≠
      .error .unfinished := by
  have hnever : ¬ ∃ fuel, (testPatterns star ⟨fuel, []⟩ starRule ∅ "a".toList false).result ≠
      .error .unfinished := by
    rintro ⟨fuel, h⟩
    have hfixed : laterStep star starRule "a".toList = some "a".toList := by decide +kernel
    have hends := (testPatternsLoop_ends_iff [] fuel ∅ _ [] false).mp h
    exact not_endsWithin_of_fixed hfixed fuel hends
  refine ⟨?_, hnever⟩
  by_contra h
  exact hnever ⟨_, h⟩

end HttpRewrite
end Metaproxy
