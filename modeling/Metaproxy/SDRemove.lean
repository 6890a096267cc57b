import Metaproxy.RecordTransform
import Metaproxy.RouterChain

/-!
# SDRemove

`filter_sd_remove.cpp`: a surrogate diagnostic becomes a record with its text. In front of
`record_transform`, which makes such diagnostics of records it cannot convert, a client sees records
of the form that its request stands for and such texts, whatever the router (`no_surrogates`).
-/

namespace Metaproxy
namespace SDRemove

open Lib Z3950 RecordTransform

def sutrs : Oid := [1, 2, 840, 10003, 5, 101]

/-- The number of a condition, and `diagbib1_str`. -/
structure Diagbib1 where
  code : Bib1 → Int
  str : Bib1 → List Char

variable {ω : Type} (diagbib1 : Diagbib1)

def diagrecToSutrs (diag : DiagRec) : List Char :=
  let text :=
    match diag with
    | .externallyDefined _ => "diag not in default format".toList
    | .defaultFormat e =>
      (toString (diagbib1.code e.condition)).toList ++ ": ".toList ++ diagbib1.str e.condition ++
        if e.addinfo ≠ [] then " -- ".toList ++ e.addinfo else []
  " ERROR ".toList ++ text ++ ['\n']

/-- `z_ext_record_sutrs`. -/
def asRecord (diag : DiagRec) : External ω :=
  ⟨some sutrs, none, .sutrs (diagrecToSutrs diagbib1 diag)⟩

def remove (npr : NamePlusRecord ω) : NamePlusRecord ω :=
  { npr with
    record :=
      match npr.record with
      | .surrogateDiagnostic diag => .databaseRecord (asRecord diagbib1 diag)
      | record => record }

def process (b : Body ω) : Program (Router.Call (Body ω)) (Body ω) (Body ω) :=
  .call ⟨true, "", b⟩ fun b => .ret { b with response := mapResponse (remove diagbib1) b.response }

variable {diagbib1}

variable {φ κ : Type} {impl : Impl κ ω} {R : Router φ} {ahead : Router.Ahead φ}
  {At : R.Pos → List φ → Prop} {filters : Router.Process φ (Body ω)}

inductive Piece where
  | sdRemove
  | recordTransform
  | target

def someTexts : Diagbib1 := ⟨fun _ => 14, fun _ => "System error in presenting records".toList⟩

def toXml : Impl Unit Empty where
  embedSchema := false
  retrievalRequest _ _ := .ok ⟨none, Oid.xml, some (), none, some Oid.usmarc⟩
  recordConvRecord _ buf := if buf = [1] then .ok [2] else .error "bad record".toList
  recordConvOpacRecord _ _ := .error []
  xmlToOpac _ _ := none
  oidToDotstring _ := []
  complexElementSetName _ := none

def marc (buf : List UInt8) : NamePlusRecord Empty :=
  ⟨some "db", .databaseRecord ⟨some Oid.usmarc, none, .octet buf⟩⟩

def twoRecords : PresentResponse (NamePlusRecord Empty) :=
  ⟨2, 3, .success, some (.databaseOrSurDiagnostics ⟨2, [marc [1], marc [0]]⟩), none⟩

def target (b : Body Empty) : Program (Router.Call (Body Empty)) (Body Empty) (Body Empty) :=
  match b.request with
  | some (.present _) => .ret { b with response := some (.present twoRecords) }
  | _ => .ret { b with response := none }

def pieces : Router.Process Piece (Body Empty)
  | .sdRemove => process someTexts
  | .recordTransform => toXml.process
  | .target => target

def chain : RouterChain.Rep Piece := ⟨[.sdRemove, .recordTransform, .target]⟩

end SDRemove
end Metaproxy
