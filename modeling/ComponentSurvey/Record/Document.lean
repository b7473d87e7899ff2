import ComponentSurvey.Record
import ComponentSurvey.Record.Content

/-!
Records as documents. Every record has a content, field by field, which says how it is written and
what it is the same as. An empty list is kept.
-/

set_option autoImplicit false

namespace ComponentSurvey

open Content

def Location.content (l : Location) : Content :=
  .record .location [whole l.line, whole l.column, whole l.endLine, whole l.endColumn]

def Parameter.content (p : Parameter) : Content :=
  .record .parameter [text p.name, ofOption text p.type, flag p.optional,
    ofOption text p.defaultValue]

def Component.content (c : Component) : Content :=
  .record .component [text c.name, text c.kind, c.location.content, ofOption text c.props,
    texts c.hooks, texts c.stateVariables, texts c.effects, whole c.complexity]

def Callable.content (f : Callable) : Content :=
  .record .callable [text f.name, text f.kind, f.location.content,
    ofList Parameter.content f.parameters, ofOption text f.returnType, flag f.isAsync,
    flag f.isGenerator, whole f.complexity, texts f.callsTo]

def Hook.content (h : Hook) : Content :=
  .record .hook [text h.name, h.location.content, text h.component, texts h.dependencies,
    ofOption texts h.violations]

def ImportedName.content (n : ImportedName) : Content :=
  .record .importedName [text n.name, ofOption text n.localName, flag n.isTypeOnly]

def Import.content (i : Import) : Content :=
  .record .importStatement [text i.source, text i.kind, i.location.content,
    ofList ImportedName.content i.specifiers]

def Export.content (e : Export) : Content :=
  .record .exportedName [text e.name, text e.kind, e.location.content, text e.exportKind]

def Property.content (p : Property) : Content :=
  .record .property [text p.name, ofOption text p.type, flag p.optional, flag p.isReadonly]

def Interface.content (i : Interface) : Content :=
  .record .interface [text i.name, i.location.content, ofList Property.content i.properties,
    texts i.bases]

def TypeAlias.content (t : TypeAlias) : Content :=
  .record .typeAlias [text t.name, text t.type, t.location.content]

def Dependency.content (d : Dependency) : Content :=
  .record .dependency [text d.source, text d.target, text d.kind]

def Metrics.content (m : Metrics) : Content :=
  .record .metrics [whole m.cyclomatic, whole m.cognitive, whole m.linesOfCode,
    whole m.nestingDepth, whole m.parameterCount]

def Pattern.content (p : Pattern) : Content :=
  .record .pattern [text p.type, text p.name, .value p.confidence, p.location.content,
    texts p.evidence]

def Survey.content (s : Survey) : Content :=
  .record .survey [text s.filePath, s.complexity.content, ofList Component.content s.components,
    ofList Callable.content s.functions, ofList Hook.content s.hooks,
    ofList Import.content s.imports, ofList Export.content s.exports,
    ofList Interface.content s.interfaces, ofList TypeAlias.content s.types,
    ofList Dependency.content s.dependencies, ofList Pattern.content s.patterns]

def Parameter.toJson (p : Parameter) : Json := p.content.toJson

def Callable.toJson (f : Callable) : Json := f.content.toJson

def Dependency.toJson (d : Dependency) : Json := d.content.toJson

def Metrics.toJson (m : Metrics) : Json := m.content.toJson

def Pattern.toJson (p : Pattern) : Json := p.content.toJson

def Survey.toJson (s : Survey) : Json := s.content.toJson

/-- Confidences are compared as numbers: 1 and 1.0 make no difference. -/
def Survey.same (a b : Survey) : Bool := a.content.same b.content

namespace Record

def content : Record → Content
  | .location r => r.content
  | .parameter r => r.content
  | .component r => r.content
  | .callable r => r.content
  | .hook r => r.content
  | .importedName r => r.content
  | .importStatement r => r.content
  | .exportedName r => r.content
  | .property r => r.content
  | .interface r => r.content
  | .typeAlias r => r.content
  | .dependency r => r.content
  | .metrics r => r.content
  | .pattern r => r.content
  | .survey r => r.content

def toJson (r : Record) : Json := r.content.toJson

def same (r s : Record) : Bool := r.content.same s.content

end Record

namespace RecordClass

/-- Number of fields that have no usual value; they come first. -/
def required : RecordClass → Nat
  | .location => 4
  | .parameter => 1
  | .component => 3
  | .callable => 3
  | .hook => 2
  | .importedName => 1
  | .importStatement => 3
  | .exportedName => 3
  | .property => 1
  | .interface => 2
  | .typeAlias => 3
  | .dependency => 2
  | .metrics => 0
  | .pattern => 4
  | .survey => 2

def blank : RecordClass → Record
  | .location => .location default
  | .parameter => .parameter { name := "" }
  | .component => .component { name := "", kind := "", location := default }
  | .callable => .callable { name := "", kind := "", location := default }
  | .hook => .hook { name := "", location := default }
  | .importedName => .importedName { name := "" }
  | .importStatement => .importStatement { source := "", kind := "", location := default }
  | .exportedName => .exportedName { name := "", kind := "", location := default }
  | .property => .property { name := "" }
  | .interface => .interface { name := "", location := default }
  | .typeAlias => .typeAlias { name := "", type := "", location := default }
  | .dependency => .dependency { source := "", target := "" }
  | .metrics => .metrics {}
  | .pattern => .pattern { type := "", name := "", confidence := .null, location := default }
  | .survey => .survey { filePath := "", complexity := {} }

def filled (c : RecordClass) (given : List (Option Content)) : Content :=
  .record c (List.zipWith (fun g u => g.getD u) given c.blank.content.fields)

end RecordClass

end ComponentSurvey
