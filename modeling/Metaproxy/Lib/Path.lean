import Metaproxy.Lib.Cut

/-!
# Lib.Path

What the path of a file denotes: the names of the directories that lead to it, when no name on the
way is a link.

`below_append_iff`: when a text put behind a path, without `..` in it, leads to something below what
the path denotes.
-/

namespace Lib
namespace Path

abbrev Name := List Char

/-- Going on to a name. The root directory is above itself. -/
def step (dirs : List Name) (name : Name) : List Name :=
  if name = [] ∨ name = ['.'] then dirs
  else if name = ['.', '.'] then dirs.dropLast
  else dirs ++ [name]

def walk (dirs : List Name) (names : List Name) : List Name := names.foldl step dirs

def names (path : List Char) : List Name := path.splitOn '/'

/-- Where a path begins. -/
def start (cwd : List Name) (path : List Char) : List Name :=
  if path.head? = some '/' then [] else cwd

/-- What a path denotes in the working directory `cwd`. -/
def denotes (cwd : List Name) (path : List Char) : List Name := walk (start cwd path) (names path)

/-- A name that leads one directory down. -/
def isDown (name : Name) : Bool := name ≠ [] && name ≠ ['.']

theorem step_down {dirs : List Name} {name : Name} (hnil : name ≠ []) (hdot : name ≠ ['.'])
    (hup : name ≠ ['.', '.']) : step dirs name = dirs ++ [name] := by
  rw [step, if_neg (by simp [hnil, hdot]), if_neg hup]

theorem walk_down (dirs : List Name) {ns : List Name} (h : ['.', '.'] ∉ ns) :
    walk dirs ns = dirs ++ ns.filter isDown := by
  induction ns generalizing dirs with
  | nil => simp [walk]
  | cons n ns ih =>
    rw [List.mem_cons, not_or] at h
    have hwalk : walk dirs (n :: ns) = walk (step dirs n) ns := rfl
    rw [hwalk, ih _ h.2]
    by_cases hdown : isDown n = true
    · have hname : n ≠ [] ∧ n ≠ ['.'] := by simpa [isDown] using hdown
      rw [step_down hname.1 hname.2 (Ne.symm h.1), List.filter_cons_of_pos hdown,
        List.append_assoc]
      rfl
    · have hname : n = [] ∨ n = ['.'] := by
        by_contra hne
        rw [not_or] at hne
        exact hdown (by simp [isDown, hne])
      rw [step, if_pos hname, List.filter_cons_of_neg hdown]

/-- The names of a path with a text behind it: the first name of the text goes on the last one of
the path. -/
theorem names_append (path text : List Char) :
    ∃ dirs last first rest, names path = dirs ++ [last] ∧ names text = first :: rest ∧
      names (path ++ text) = dirs ++ (last ++ first) :: rest := by
  obtain ⟨first, rest, htext⟩ : ∃ first rest, names text = first :: rest :=
    List.exists_cons_of_ne_nil (List.splitOn_ne_nil _ _)
  rcases cutLast_cases '/' path with h | ⟨before, last, rfl, h⟩
  · refine ⟨[], path, first, rest, List.splitOn_eq_singleton h, htext, ?_⟩
    rw [names, splitOn_append_of_notMem h]
    rw [names] at htext
    rw [htext]
    rfl
  · refine ⟨before.splitOn '/', last, first, rest, ?_, htext, ?_⟩
    · rw [names, List.splitOn_append_cons_self, List.splitOn_eq_singleton h]
    · rw [names] at htext
      rw [names, List.append_assoc, List.cons_append, List.splitOn_append_cons_self,
        splitOn_append_of_notMem h, htext]
      rfl

/-- Up one directory and down again. -/
theorem prefix_dropLast_append_iff {dirs ns : List Name} :
    dirs <+: dirs.dropLast ++ ns ↔ dirs = [] ∨ ns.head? = dirs.getLast? := by
  rcases List.eq_nil_or_concat dirs with rfl | ⟨above, name, rfl⟩
  · simp
  · rw [List.concat_eq_append, List.dropLast_concat, List.prefix_append_right_inj, List.getLast?_concat]
    cases ns with
    | nil => simp
    | cons n ns =>
      rw [List.cons_prefix_cons, List.head?_cons, Option.some.injEq, or_iff_right (by simp)]
      simp [eq_comm]

/-- A name that is continued by `first`. -/
theorem step_prefix_iff {dirs ns : List Name} {last first : Name} (hup : first ≠ ['.', '.']) :
    step dirs last <+: step dirs (last ++ first) ++ ns ↔
      last = [] ∨ first = [] ∨ last = ['.', '.'] ∨
        (last = ['.'] ∧ (first ≠ ['.'] ∨ dirs = [] ∨ ns.head? = dirs.getLast?)) := by
  by_cases hlast : last = []
  · have hstep : step dirs last = dirs := if_pos (.inl hlast)
    rw [hstep, hlast, List.nil_append]
    refine iff_of_true ?_ (.inl rfl)
    by_cases hfirst : first = [] ∨ first = ['.']
    · rw [step, if_pos hfirst]
      exact List.prefix_append _ _
    · rw [not_or] at hfirst
      rw [step_down hfirst.1 hfirst.2 hup, List.append_assoc]
      exact List.prefix_append _ _
  by_cases hfirst : first = []
  · rw [hfirst, List.append_nil]
    exact iff_of_true (List.prefix_append _ _) (.inr (.inl rfl))
  rw [or_iff_right hlast, or_iff_right hfirst]
  have hlen : 0 < last.length ∧ 0 < first.length :=
    ⟨List.length_pos_iff.mpr hlast, List.length_pos_iff.mpr hfirst⟩
  have hnil : last ++ first ≠ [] := fun h => hlast (List.append_eq_nil_iff.mp h).1
  have hdot : last ++ first ≠ ['.'] := by
    intro h
    have hone := congrArg List.length h
    simp at hone
    omega
  by_cases hboth : last ++ first = ['.', '.']
  · -- the working directory is left and entered again
    obtain ⟨rfl, rfl⟩ : last = ['.'] ∧ first = ['.'] := by
      have htwo := congrArg List.length hboth
      simp at htwo
      obtain ⟨a, rfl⟩ := List.length_eq_one_iff.mp (by omega : last.length = 1)
      obtain ⟨b, rfl⟩ := List.length_eq_one_iff.mp (by omega : first.length = 1)
      simpa using hboth
    have hstep : step dirs ['.'] = dirs := rfl
    have hstep' : step dirs (['.'] ++ ['.']) = dirs.dropLast := rfl
    rw [hstep, hstep', prefix_dropLast_append_iff]
    simp
  · rw [step_down hnil hdot hboth]
    by_cases hparent : last = ['.', '.']
    · have hstep : step dirs last = dirs.dropLast := by
        rw [hparent]
        rfl
      rw [hstep, List.append_assoc]
      exact iff_of_true ((List.dropLast_prefix dirs).trans (List.prefix_append _ _)) (.inl hparent)
    rw [or_iff_right hparent]
    by_cases hhere : last = ['.']
    · have hstep : step dirs last = dirs := if_pos (.inr hhere)
      have hother : first ≠ ['.'] := by
        rintro rfl
        exact hboth (by rw [hhere]; rfl)
      rw [hstep, List.append_assoc]
      exact iff_of_true (List.prefix_append _ _) ⟨hhere, .inl hother⟩
    · rw [step_down hlast hhere hparent, List.append_assoc, List.prefix_append_right_inj]
      refine iff_of_false ?_ fun h => hhere h.1
      intro h
      have heq := (List.cons_prefix_cons.mp h).1
      exact hfirst (List.append_right_eq_self.mp heq.symm)

/-- What stands behind the first `/` of a text. -/
def laterNames (text : List Char) : List Name := (names text).tail.filter isDown

/-- A text may follow a path: a `/` is between them, or the path ends in `..`, or it ends in `.` and
the two together lead back to where it does. -/
def Follows (cwd : List Name) (path text : List Char) : Prop :=
  (names path).getLast? = some [] ∨ (names text).head? = some [] ∨
    (names path).getLast? = some ['.', '.'] ∨
    ((names path).getLast? = some ['.'] ∧
      ((names text).head? ≠ some ['.'] ∨ denotes cwd path = [] ∨
        (laterNames text).head? = (denotes cwd path).getLast?))

theorem below_append_iff {cwd : List Name} {path text : List Char} (hpath : path ≠ [])
    (hup : ¬ ['.', '.'] <:+: text) :
    denotes cwd path <+: denotes cwd (path ++ text) ↔ Follows cwd path text := by
  obtain ⟨dirs, last, first, rest, hnames, htext, happend⟩ := names_append path text
  have hnoup : ∀ n ∈ first :: rest, n ≠ ['.', '.'] := by
    rintro n hn rfl
    rw [← htext] at hn
    exact hup (infix_of_mem_splitOn hn)
  have hstart : start cwd (path ++ text) = start cwd path := by
    obtain ⟨c, path, rfl⟩ := List.exists_cons_of_ne_nil hpath
    rfl
  have hdenotes : denotes cwd path = step (walk (start cwd path) dirs) last := by
    rw [denotes, hnames, walk, List.foldl_append]
    rfl
  have hboth : denotes cwd (path ++ text) =
      step (walk (start cwd path) dirs) (last ++ first) ++ rest.filter isDown := by
    rw [denotes, happend, hstart, walk, List.foldl_append, List.foldl_cons, ← walk]
    exact walk_down _ fun hmem => hnoup _ (List.mem_cons_of_mem _ hmem) rfl
  have hlater : laterNames text = rest.filter isDown := by
    rw [laterNames, htext]
    rfl
  rw [hboth, hdenotes, step_prefix_iff (hnoup first List.mem_cons_self), Follows, hnames, htext,
    hlater, hdenotes]
  simp only [List.getLast?_concat, List.head?_cons, Option.some.injEq, ne_eq]
  refine or_congr_right (or_congr_right (or_congr_right (and_congr_right fun hhere => ?_)))
  rw [hhere]
  rfl

end Path
end Lib
