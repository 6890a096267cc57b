import Metaproxy.Lib.LastWins
import Metaproxy.Lib.Outcome
import Metaproxy.Lib.Slots
import Metaproxy.Zoom.Retries

/-!
# Zoom.Arguments

The arguments that `get_backend_from_databases` of `filter_zoom.cpp` puts behind the URL. Their
arrays, `out_names` and `out_values`, have room for 20 more than the database has.

* `passArgs_eq_out` — what is passed on is what the other modules have as `Args.out`.
* `names_addTarget` — which names a target adds; `reaches_of_connected` — it is the one of the
  connection.
* `writes_bounded_iff` — when all of it fits.
-/

namespace Metaproxy
namespace Zoom

open Lib

/-! ## The code -/

/-- A name and a value. -/
abbrev Arg := List Char × List Char

/-- `out_names` and `out_values`; `no_out_args` is the number of items. -/
abbrev OutArgs := Slots Arg

/-- The loop over the arguments, which stops at a bad one. -/
def OutArgs.pass (sessionRealm : List Char) (out : OutArgs) : List Arg → OutArgs
  | [] => out
  | p :: l =>
    match argName sessionRealm p.1 with
    | none => out
    | some .cproxysession => OutArgs.pass sessionRealm (Slots.write out p) l
    | some .x => OutArgs.pass sessionRealm (Slots.write out p) l
    | some _ => OutArgs.pass sessionRealm out l

def OutArgs.addUser (out : OutArgs) (args : Args) (sptr : Searchable) : OutArgs :=
  match args.user with
  | some user =>
    let out := Slots.write out ("user".toList, user)
    match args.password with
    | some password => Slots.write out ("password".toList, password)
    | none => out
  | none =>
    if sptr.authentication = [] then out
    else if '/' ∈ sptr.authentication then
      Slots.write (Slots.write out ("user".toList, sptr.authentication.takeWhile (· ≠ '/')))
        ("password".toList, (sptr.authentication.dropWhile (· ≠ '/')).tail)
    else Slots.write out ("user".toList, sptr.authentication)

/-- A text that may be empty. -/
def OutArgs.addText (out : OutArgs) (name value : List Char) : OutArgs :=
  if value = [] then out else Slots.write out (name, value)

/-- `param_nocproxy` of a CF target. -/
def paramNocproxy (args : Args) (sptr : Searchable) : Option (List Char) :=
  match args.nocproxy with
  | some value => some value
  | none =>
    if sptr.noCproxy = "1".toList then some "1".toList
    else if sptr.contentConnector = [] then none else some "1".toList

def OutArgs.addNocproxy (out : OutArgs) (args : Args) (sptr : Searchable) : OutArgs :=
  match paramNocproxy args sptr with
  | some value => Slots.write out ("nocproxy".toList, value)
  | none => out

def OutArgs.addTarget (out : OutArgs) (args : Args) (sptr : Searchable) : OutArgs :=
  if sptr.cfAuth = [] then out
  else
    let proxy := if args.proxy = [] then sptr.cfProxy else args.proxy
    let out := out.addUser args sptr
    let out := OutArgs.addText out "proxy".toList proxy
    let out := OutArgs.addText out "subdatabase".toList sptr.cfSubDB
    let out := OutArgs.addNocproxy out args sptr
    (sptr.cfParam.entries.map fun e => (e.1, e.2)).foldl (Slots.writeNew Prod.fst) out

section Code

variable (yaz : Yaz) (impl : Impl) (f : Frontend) (database : List Char) (a : Attempt)
  (proxyStep : Nat)

def passArgs : OutArgs := OutArgs.pass f.sessionRealm Slots.empty (inputArgs yaz database)

/-- The indexes at which one call writes; at the last one only a name, to end the list. -/
def writes : List Nat :=
  match databaseArgs yaz impl f database proxyStep with
  | .error _ => (passArgs yaz f database).written
  | .ok args =>
    match f.connectionReuse database with
    | some _ => (passArgs yaz f database).written
    | none =>
      if torusDb database = "IR-Explain---1".toList then (passArgs yaz f database).written
      else
        match findSearchable impl args.torusUrl database a.torus with
        | .error _ => (passArgs yaz f database).written
        | .ok sptr =>
          match a.unusable with
          | some _ => (passArgs yaz f database).written
          | none => ((passArgs yaz f database).addTarget args sptr).terminated

end Code

/-! ## Arguments -/

section Given

variable {yaz : Yaz} {torusContentUrl sessionRealm : List Char} {connectionReuse : Bool}
  {l : List Arg} {args args' : Args} {p : Arg}

/-- An argument that is passed on with the URL. -/
def passes (sessionRealm : List Char) (p : Arg) : Bool :=
  argName sessionRealm p.1 = some .cproxysession || argName sessionRealm p.1 = some .x

def given (sessionRealm : List Char) (name : ArgName) (l : List Arg) : Bool :=
  l.any fun p => argName sessionRealm p.1 = some name

/-- An argument that gives the URL of the Torus. -/
def givesTorus (sessionRealm : List Char) (p : Arg) : Option Unit :=
  if argName sessionRealm p.1 = some .cproxysession ∨ argName sessionRealm p.1 = some .torusUrl then
    some ()
  else none

def torusUrlOf (impl : Impl) (sessionRealm : List Char) (l : List Arg) : List Char :=
  lastValue (givesTorus sessionRealm)
    (fun p => if argName sessionRealm p.1 = some .cproxysession then impl.torusContentUrl else p.2)
    () l impl.torusSearchableUrl

theorem length_pass (sessionRealm : List Char) (out : OutArgs) (l : List Arg) :
    (out.pass sessionRealm l).items.length ≤ out.items.length + l.length := by
  induction l generalizing out with
  | nil => exact Nat.le_refl _
  | cons p l ih =>
    have hwrite := ih (Slots.write out p)
    have hsame := ih out
    rw [Slots.items_write, List.length_append, List.length_singleton] at hwrite
    rw [List.length_cons, OutArgs.pass]
    cases argName sessionRealm p.1 with
    | none => exact Nat.le_add_right _ _
    | some name => cases name <;> simp only <;> omega

/-- Without a bad argument, those that pass are passed on. -/
theorem items_pass (hl : ∀ p ∈ l, argName sessionRealm p.1 ≠ none) (out : OutArgs) :
    (out.pass sessionRealm l).items = out.items ++ l.filter (passes sessionRealm) := by
  induction l generalizing out with
  | nil => exact (List.append_nil _).symm
  | cons p l ih =>
    rw [List.forall_mem_cons] at hl
    rw [OutArgs.pass, List.filter_cons, passes]
    cases hname : argName sessionRealm p.1 with
    | none => exact absurd hname hl.1
    | some name => cases name <;> simp [ih hl.2]

/-- What one argument does to what is used of them below. -/
structure Adds (torusContentUrl sessionRealm : List Char) (p : Arg) (args args' : Args) : Prop where
  user : args'.user.isSome =
    if argName sessionRealm p.1 = some .user then true else args.user.isSome
  password : args'.password.isSome =
    if argName sessionRealm p.1 = some .password then true else args.password.isSome
  nocproxy : args'.nocproxy.isSome =
    if argName sessionRealm p.1 = some .nocproxy then true else args.nocproxy.isSome
  torusUrl : args'.torusUrl =
    if givesTorus sessionRealm p = some () then
      if argName sessionRealm p.1 = some .cproxysession then torusContentUrl else p.2
    else args.torusUrl
  out : args'.out = args.out ++ if passes sessionRealm p then [p] else []

theorem adds (h : args.add yaz torusContentUrl sessionRealm connectionReuse p = .ok args') :
    Adds torusContentUrl sessionRealm p args args' := by
  rw [Args.add] at h
  cases hname : argName sessionRealm p.1 with
  | none =>
    rw [hname] at h
    cases h
  | some name =>
    rw [hname] at h
    cases name with
    | proxy =>
      simp only [Except.ok.injEq, Args.addProxies] at h
      split at h <;> subst h <;> constructor <;> simp [hname, givesTorus, passes]
    | _ =>
      cases h
      constructor <;> simp [hname, givesTorus, passes]

/-- A field that some of the arguments give. -/
theorem field_foldlM {κ ν : Type} [DecidableEq κ] {key : Arg → Option κ} {value : Arg → ν} {k : κ}
    (field : Args → ν)
    (hadd : ∀ args p args',
      args.add yaz torusContentUrl sessionRealm connectionReuse p = .ok args' →
        field args' = if key p = some k then value p else field args)
    (h : l.foldlM (Args.add yaz torusContentUrl sessionRealm connectionReuse) args = .ok args') :
    field args' = lastValue key value k l (field args) := by
  induction l generalizing args with
  | nil =>
    cases h
    rfl
  | cons p l ih =>
    obtain ⟨args₁, hp, h⟩ := foldlM_cons_eq_ok h
    rw [lastValue_cons, ← hadd args p args₁ hp]
    exact ih h

theorem out_foldlM
    (h : l.foldlM (Args.add yaz torusContentUrl sessionRealm connectionReuse) args = .ok args') :
    args'.out = args.out ++ l.filter (passes sessionRealm) := by
  induction l generalizing args with
  | nil =>
    cases h
    exact (List.append_nil _).symm
  | cons p l ih =>
    obtain ⟨args₁, hp, h⟩ := foldlM_cons_eq_ok h
    rw [ih h, (adds hp).out, List.filter_cons, List.append_assoc]
    split <;> rfl

end Given

/-! ## What is written -/

section Written

variable {yaz : Yaz} {impl : Impl} {f : Frontend} {database : List Char} {a : Attempt}
  {proxyStep : Nat} {args : Args} {sptr : Searchable}

theorem known_of_databaseArgs (h : databaseArgs yaz impl f database proxyStep = .ok args) :
    Known yaz database f.sessionRealm := by
  by_contra hknown
  obtain ⟨error, herror⟩ := databaseArgs_unknown impl f proxyStep hknown
  rw [herror] at h
  cases h

theorem user_databaseArgs (h : databaseArgs yaz impl f database proxyStep = .ok args) :
    args.user.isSome = given f.sessionRealm .user (inputArgs yaz database) :=
  (field_foldlM (fun args => args.user.isSome) (fun _ _ _ hadd => (adds hadd).user) h).trans
    lastValue_true

theorem password_databaseArgs (h : databaseArgs yaz impl f database proxyStep = .ok args) :
    args.password.isSome = given f.sessionRealm .password (inputArgs yaz database) :=
  (field_foldlM (fun args => args.password.isSome) (fun _ _ _ hadd => (adds hadd).password)
    h).trans lastValue_true

theorem nocproxy_databaseArgs (h : databaseArgs yaz impl f database proxyStep = .ok args) :
    args.nocproxy.isSome = given f.sessionRealm .nocproxy (inputArgs yaz database) :=
  (field_foldlM (fun args => args.nocproxy.isSome) (fun _ _ _ hadd => (adds hadd).nocproxy)
    h).trans lastValue_true

theorem torusUrl_databaseArgs (h : databaseArgs yaz impl f database proxyStep = .ok args) :
    args.torusUrl = torusUrlOf impl f.sessionRealm (inputArgs yaz database) :=
  field_foldlM Args.torusUrl (fun _ _ _ hadd => (adds hadd).torusUrl) h

theorem passArgs_items (h : Known yaz database f.sessionRealm) :
    (passArgs yaz f database).items =
      (inputArgs yaz database).filter (passes f.sessionRealm) := by
  rw [passArgs, items_pass h]
  rfl

theorem passArgs_eq_out (h : databaseArgs yaz impl f database proxyStep = .ok args) :
    (passArgs yaz f database).items = args.out := by
  rw [passArgs_items (known_of_databaseArgs h), out_foldlM h]
  rfl

/-- A name that is there or not. -/
def optional (name : List Char) (c : Bool) : List (List Char) := if c then [name] else []

/-- The names that a target adds before those of its own parameters. -/
def fixedNames (sptr : Searchable) (user password proxy nocproxy : Bool) : List (List Char) :=
  optional "user".toList (user || sptr.authentication ≠ []) ++
    optional "password".toList (if user then password else '/' ∈ sptr.authentication) ++
    optional "proxy".toList (proxy || sptr.cfProxy ≠ []) ++
    optional "subdatabase".toList (sptr.cfSubDB ≠ []) ++
    optional "nocproxy".toList
      (nocproxy || sptr.noCproxy = "1".toList || sptr.contentConnector ≠ [])

def OutArgs.names (out : OutArgs) : List (List Char) := out.items.map Prod.fst

@[simp] theorem names_write (out : OutArgs) (name value : List Char) :
    OutArgs.names (Slots.write out (name, value)) = out.names ++ [name] := by
  simp [OutArgs.names]

theorem names_addUser (out : OutArgs) (args : Args) (sptr : Searchable) :
    (out.addUser args sptr).names = out.names ++
      optional "user".toList (args.user.isSome || sptr.authentication ≠ []) ++
      optional "password".toList
        (if args.user.isSome then args.password.isSome else '/' ∈ sptr.authentication) := by
  rw [OutArgs.addUser]
  cases args.user with
  | some user => cases args.password <;> simp [optional]
  | none =>
    by_cases hempty : sptr.authentication = []
    · simp [hempty, optional]
    · by_cases hslash : '/' ∈ sptr.authentication <;> simp [hempty, hslash, optional]

theorem names_addText (out : OutArgs) (name value : List Char) :
    (out.addText name value).names = out.names ++ optional name (value ≠ []) := by
  rw [OutArgs.addText]
  by_cases h : value = [] <;> simp [h, optional]

theorem isSome_paramNocproxy (args : Args) (sptr : Searchable) :
    (paramNocproxy args sptr).isSome =
      (args.nocproxy.isSome || sptr.noCproxy = "1".toList || sptr.contentConnector ≠ []) := by
  rw [paramNocproxy]
  cases args.nocproxy with
  | some value => rfl
  | none =>
    by_cases hno : sptr.noCproxy = "1".toList
    · rw [if_pos hno, decide_eq_true hno]
      rfl
    · rw [if_neg hno, decide_eq_false hno]
      by_cases hcontent : sptr.contentConnector = []
      · rw [if_pos hcontent, hcontent]
        rfl
      · rw [if_neg hcontent, decide_eq_true hcontent]
        rfl

theorem names_addNocproxy (out : OutArgs) (args : Args) (sptr : Searchable) :
    (out.addNocproxy args sptr).names = out.names ++ optional "nocproxy".toList
      (args.nocproxy.isSome || sptr.noCproxy = "1".toList || sptr.contentConnector ≠ []) := by
  rw [OutArgs.addNocproxy, ← isSome_paramNocproxy]
  cases paramNocproxy args sptr <;> simp [optional]

theorem proxy_ne_iff (args : Args) (sptr : Searchable) :
    decide ((if args.proxy = [] then sptr.cfProxy else args.proxy) ≠ []) =
      (decide (args.proxy ≠ []) || decide (sptr.cfProxy ≠ [])) := by
  by_cases h : args.proxy = [] <;> simp [h]

theorem names_addTarget (hcf : sptr.cfAuth ≠ []) (out : OutArgs) (args : Args)
    {fixed : List (List Char)}
    (hfixed : fixed = fixedNames sptr args.user.isSome args.password.isSome (args.proxy ≠ [])
      args.nocproxy.isSome) :
    (out.addTarget args sptr).names =
      (out.names ++ fixed) ++ Slots.newKeys (out.names ++ fixed) sptr.cfParam.keys := by
  have hkeys : (sptr.cfParam.entries.map fun e => (e.1, e.2)).map Prod.fst =
      sptr.cfParam.keys := List.map_map ..
  have hnodup : ((sptr.cfParam.entries.map fun e => (e.1, e.2)).map Prod.fst).Nodup :=
    hkeys ▸ sptr.cfParam.keys_nodup
  rw [OutArgs.addTarget, if_neg hcf, OutArgs.names, Slots.keys_writeAllNew hnodup, hkeys]
  have hnames : ((((out.addUser args sptr).addText "proxy".toList
      (if args.proxy = [] then sptr.cfProxy else args.proxy)).addText "subdatabase".toList
      sptr.cfSubDB).addNocproxy args sptr).names = out.names ++ fixed := by
    rw [names_addNocproxy, names_addText, names_addText, names_addUser, proxy_ne_iff, hfixed,
      fixedNames]
    simp only [List.append_assoc]
  rw [← hnames]
  rfl

/-- The target of the call, if it comes so far. -/
structure Reaches (yaz : Yaz) (impl : Impl) (f : Frontend) (database : List Char) (a : Attempt)
    (sptr : Searchable) : Prop where
  known : Known yaz database f.sessionRealm
  new : f.connectionReuse database = none
  target : ¬ IsExplain database
  found : findSearchable impl (torusUrlOf impl f.sessionRealm (inputArgs yaz database)) database
    a.torus = .ok sptr
  usable : a.unusable = none

/-- The names that are written before those of a target's own parameters. -/
def namesBefore (yaz : Yaz) (f : Frontend) (database : List Char) (proxyStep : Nat)
    (sptr : Searchable) : List (List Char) :=
  let l := inputArgs yaz database
  (l.filter (passes f.sessionRealm)).map Prod.fst ++
    fixedNames sptr (given f.sessionRealm .user l) (given f.sessionRealm .password l)
      ((chooseProxy (listed yaz database f.sessionRealm) proxyStep).1.getD [] ≠ [])
      (given f.sessionRealm .nocproxy l)

theorem writes_of_reaches (proxyStep : Nat) (h : Reaches yaz impl f database a sptr) :
    ∃ args, databaseArgs yaz impl f database proxyStep = .ok args ∧
      writes yaz impl f database a proxyStep =
        ((passArgs yaz f database).addTarget args sptr).terminated := by
  obtain ⟨args, hargs, -, -⟩ := databaseArgs_known impl f proxyStep h.known
  have hfound := h.found
  rw [← torusUrl_databaseArgs hargs] at hfound
  refine ⟨args, hargs, ?_⟩
  have htarget : ¬ torusDb database = "IR-Explain---1".toList := h.target
  rw [writes, hargs]
  simp only [h.new, if_neg htarget, hfound, h.usable]

theorem writes_of_not_reaches (h : ∀ sptr, ¬ Reaches yaz impl f database a sptr) :
    writes yaz impl f database a proxyStep = (passArgs yaz f database).written := by
  rw [writes]
  split
  · rfl
  case h_2 args hargs =>
    split
    · rfl
    case h_2 hnew =>
      split
      · rfl
      case isFalse htarget =>
        split
        · rfl
        case h_2 sptr hfound =>
          split
          · rfl
          case h_2 husable =>
            rw [torusUrl_databaseArgs hargs] at hfound
            exact absurd ⟨known_of_databaseArgs hargs, hnew, htarget, hfound, husable⟩ (h sptr)

theorem explainSearch_ne_connected (impl : Impl) (f : Frontend) (database : List Char)
    (query : Query) (answer : Except (List Char) (List XmlNode)) (f' : Frontend) (b : Backend)
    (step : Nat) : explainSearch impl f database query answer ≠ .connected f' b step := by
  intro h
  unfold explainSearch at h
  cases hxsp : impl.explainXsp with
  | false => simp [hxsp] at h
  | true =>
    cases query with
    | type104 cql => cases answer <;> simp [hxsp] at h
    | _ => simp [hxsp] at h

/-- A new connection is one to the target of the call. -/
theorem reaches_of_connected {query : Query} {f' : Frontend} {b : Backend} {step : Nat}
    (hnew : f.connectionReuse database = none)
    (h : getBackendFromDatabases yaz impl f database query a proxyStep = .connected f' b step) :
    Reaches yaz impl f database a b.sptr := by
  rw [getBackendFromDatabases] at h
  cases hargs : databaseArgs yaz impl f database proxyStep with
  | error error =>
    rw [hargs] at h
    cases h
  | ok args =>
    simp only [hargs, hnew] at h
    split at h
    · exact absurd h (explainSearch_ne_connected impl f database query a.explain f' b step)
    case isFalse htarget =>
      split at h
      · cases h
      case h_2 sptr hfound =>
        split at h
        · cases h
        case h_2 husable =>
          rw [Frontend.newBackend] at h
          rw [torusUrl_databaseArgs hargs] at hfound
          split at h
          · cases h
          · cases h
            exact ⟨known_of_databaseArgs hargs, hnew, htarget, hfound, husable⟩

theorem length_passArgs :
    (passArgs yaz f database).items.length ≤ (inputArgs yaz database).length := by
  have h := length_pass f.sessionRealm Slots.empty (inputArgs yaz database)
  rwa [Slots.items_empty, List.length_nil, Nat.zero_add] at h

theorem names_target (h : Reaches yaz impl f database a sptr)
    (hargs : databaseArgs yaz impl f database proxyStep = .ok args) (hcf : sptr.cfAuth ≠ []) :
    ((passArgs yaz f database).addTarget args sptr).names =
      namesBefore yaz f database proxyStep sptr ++
        Slots.newKeys (namesBefore yaz f database proxyStep sptr) sptr.cfParam.keys := by
  obtain ⟨args', hargs', -, hproxy⟩ := databaseArgs_known impl f proxyStep h.known
  obtain rfl : args' = args := Except.ok.inj (hargs'.symm.trans hargs)
  have hfixed := names_addTarget hcf (passArgs yaz f database) args' rfl
  rw [user_databaseArgs hargs, password_databaseArgs hargs, nocproxy_databaseArgs hargs,
    hproxy h.new, OutArgs.names, OutArgs.names, passArgs_items h.known] at hfixed
  exact hfixed

/-- For every call: all is written within the arrays if and only if it does not come to a CF target,
or the names for it and the end of the list are no more than there is room for. -/
theorem writes_bounded_iff (yaz : Yaz) (impl : Impl) (f : Frontend) (database : List Char)
    (a : Attempt) (proxyStep : Nat) :
    (∀ i ∈ writes yaz impl f database a proxyStep, i < 20 + (inputArgs yaz database).length) ↔
      ∀ sptr, Reaches yaz impl f database a sptr → sptr.cfAuth ≠ [] →
        (namesBefore yaz f database proxyStep sptr).length +
            (Slots.newKeys (namesBefore yaz f database proxyStep sptr)
              sptr.cfParam.keys).length + 1 ≤
          20 + (inputArgs yaz database).length := by
  have hpass : (passArgs yaz f database).items.length ≤ (inputArgs yaz database).length :=
    length_passArgs
  have hroom : 0 < 20 + (inputArgs yaz database).length := by omega
  by_cases hreach : ∃ sptr, Reaches yaz impl f database a sptr
  · obtain ⟨sptr, hsptr⟩ := hreach
    obtain ⟨args, hargs, hwrites⟩ := writes_of_reaches proxyStep hsptr
    rw [hwrites, Slots.terminated_lt_iff hroom]
    by_cases hcf : sptr.cfAuth = []
    · rw [OutArgs.addTarget, if_pos hcf]
      refine iff_of_true (by omega) fun sptr' h hcf' => ?_
      obtain rfl := Except.ok.inj (h.found.symm.trans hsptr.found)
      exact absurd hcf hcf'
    · have hlen := congrArg List.length (names_target hsptr hargs hcf)
      rw [OutArgs.names, List.length_map, List.length_append] at hlen
      rw [hlen]
      constructor
      · intro hlt sptr' h hcf'
        obtain rfl := Except.ok.inj (h.found.symm.trans hsptr.found)
        exact hlt
      · intro h
        exact h sptr hsptr hcf
  · rw [not_exists] at hreach
    rw [writes_of_not_reaches hreach, Slots.written_lt_iff]
    refine iff_of_true (by omega) fun sptr h => ?_
    exact absurd h (hreach sptr)

end Written

/-! ## Many parameters -/

/-- `cf_p`, `cf_pp` and so on. -/
def twentyParams : Table (List Char) (List Char) where
  entries := (List.range 20).map fun n => ⟨List.replicate (n + 1) 'p', "1".toList⟩
  nodupKeys := by
    show (List.map _ _).Nodup
    decide +kernel

def cfTarget : Searchable where
  authentication := []
  cfAuth := "connector".toList
  cfProxy := []
  cfSubDB := []
  cfParam := twentyParams
  contentConnector := []
  noCproxy := []
  retryOnFailure := "1".toList
  sru := []
  rpn2cqlFname := []
  cclBibset := ∅

def cfOnly : Impl where
  torusSearchableUrl := []
  torusContentUrl := []
  defaultRealm := []
  sMap := (∅ : Table (List Char) Searchable).insert "db".toList cfTarget
  fieldmap := ∅
  explainXsp := false

/-- Without any argument, the end of the list is written behind the array. -/
theorem writes_not_bounded :
    20 ∈ writes plain cfOnly newSession "db".toList (refused true) 0 ∧
      ¬ 20 < 20 + (inputArgs plain "db".toList).length := by
  decide +kernel

end Zoom
end Metaproxy
