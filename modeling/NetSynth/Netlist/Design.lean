import NetSynth.Diagnostic.Basic
import NetSynth.Netlist.Fault

/-!
A netlist under construction. Objects are only ever added, and `addDevice` is the only way to make a
device: it refuses connections that break the contract of the kind. What was added before a stop
stays.
-/

namespace NetSynth

/-- A naming scope. Synthesis names its own objects from the scope's counter. -/
structure Scope where
  id : ScopeId
  name : Name
  parent : Option ScopeId
  nextLocal : Nat
  deriving DecidableEq

structure Port extends ValueType where
  name : Name
  deriving DecidableEq

/-- A function as a call sees it. The result carries the name of the function. -/
structure FunctionSignature where
  id : FunctionId
  scope : ScopeId
  result : Port
  ports : List Port
  deriving DecidableEq

structure Design where
  nets : Array Net
  devices : Array Device
  scopes : Array Scope
  functions : Array FunctionSignature
  names : NameTable
  log : DiagnosticLog

namespace Design

def empty (rootName : String) : Design :=
  let (name, names) := ({} : NameTable).intern rootName
  { nets := #[]
    devices := #[]
    scopes := #[⟨.root, name, none, 0⟩]
    functions := #[]
    names
    log := {} }

def net? (design : Design) (id : NetId) : Option Net := design.nets[id.index]?

def device? (design : Design) (id : DeviceId) : Option Device := design.devices[id.index]?

def scope? (design : Design) (id : ScopeId) : Option Scope := design.scopes[id.index]?

def function? (design : Design) (id : FunctionId) : Option FunctionSignature :=
  design.functions[id.index]?

def errorCount (design : Design) : Nat := design.log.errorCount

/-- The first net of a scope that has the given name. -/
def find? (design : Design) (scope : ScopeId) (text : String) : Option NetId := do
  let name ← design.names.find? text
  let net ← design.nets.find? fun net => net.scope == scope && net.name == name
  return net.id

/-- What a pin sees through its connection. -/
structure Seen where
  pin : PinName
  net : NetId
  width : Nat
  domain : Domain
  deriving DecidableEq

/-- A whole net shows all its bits and a bit reference shows one. -/
def look (design : Design) (connection : Connection) : Except Fault Seen :=
  match design.net? connection.ref.net with
  | none => throw (.unknownNet connection.ref.net)
  | some net =>
      match connection.ref with
      | .whole id => return ⟨connection.pin, id, net.width, net.domain⟩
      | .bit id index =>
          if index < net.width then return ⟨connection.pin, id, 1, net.domain⟩
          else throw (.bitOutside id index net.width)

def refWidth (design : Design) (ref : NetRef) : Except Fault Nat :=
  Seen.width <$> design.look ⟨.output, ref⟩

end Design

namespace DeviceKind

open Design (Seen)

def checkPins (kind : DeviceKind) (given : List PinName) : Except Fault Unit :=
  if given = kind.pins then return else throw (.wrongPins kind given)

def checkWidth (kind : DeviceKind) (seen : Seen) : Except Fault Unit :=
  match kind.pinWidth? seen.pin with
  | none => return
  | some required =>
      if seen.width = required then return
      else throw (.pinWidth kind seen.pin required seen.net seen.width)

def checkReal (kind : DeviceKind) (seen : Seen) : Except Fault Unit :=
  if kind.isLogicOnly && seen.domain.isReal then throw (.realPin kind seen.pin seen.net)
  else return

/-- The inputs of a concatenation fill its output. -/
def checkSum (kind : DeviceKind) (seen : List Seen) : Except Fault Unit :=
  match kind with
  | .concat width _ =>
      let sum := (seen.filter (·.pin.isInput)).foldr (fun seen sum => seen.width + sum) 0
      if sum = width then return else throw (.concatWidth sum width)
  | _ => return

/-- All domain pins see the domain that the first of them sees. -/
def checkDomains (kind : DeviceKind) (seen : List Seen) : Except Fault Unit :=
  match seen.filter (kind.domainPins.contains ·.pin) with
  | [] => return
  | first :: rest =>
      match rest.find? (·.domain != first.domain) with
      | none => return
      | some other => throw (.mixedDomains kind first.pin first.domain other.pin other.domain)

end DeviceKind

namespace Design

def lookAs (design : Design) (kind : DeviceKind) (connection : Connection) : Except Fault Seen := do
  let seen ← design.look connection
  kind.checkWidth seen
  kind.checkReal seen
  return seen

/-- Whether a device of the kind may have these connections. Faults of the pins come in the order of
the connections, and faults of the device as a whole after them. -/
def check (design : Design) (kind : DeviceKind) (connections : List Connection) :
    Except Fault Unit := do
  kind.checkPins (connections.map Connection.pin)
  let seen ← connections.mapM (design.lookAs kind)
  kind.checkSum seen
  kind.checkDomains seen

def intern (text : String) (design : Design) : Name × Design :=
  let (name, names) := design.names.intern text
  (name, { design with names })

def pushScope (name : Name) (parent : ScopeId) (design : Design) : ScopeId × Design :=
  let id : ScopeId := ⟨design.scopes.size⟩
  (id, { design with scopes := design.scopes.push ⟨id, name, some parent, 0⟩ })

def pushFunction (scope : ScopeId) (result : Port) (ports : List Port) (design : Design) :
    FunctionId × Design :=
  let id : FunctionId := ⟨design.functions.size⟩
  (id, { design with functions := design.functions.push ⟨id, scope, result, ports⟩ })

def pushNet (scope : ScopeId) (name : Name) (origin : NetOrigin) (type : ValueType)
    (isLocal : Bool) (span : Span) (design : Design) : NetId × Design :=
  let id : NetId := ⟨design.nets.size⟩
  let net : Net :=
    { type with id, name, scope, origin, isLocal, endpoints := #[], memory := none, span }
  (id, { design with nets := design.nets.push net })

def nameMemory (memory : NetId) (words : MemoryWords) (design : Design) : Design :=
  { design with nets := design.nets.modify memory.index fun net =>
    { net with memory := some words } }

/-- Takes the name that the counter of a scope stands at, and moves the counter on. -/
def nameLocal (scope : ScopeId) (counter : Nat) (design : Design) : Name × Design :=
  intern s!"_s{counter}" { design with scopes := design.scopes.modify scope.index fun scope =>
    { scope with nextLocal := scope.nextLocal + 1 } }

def attach (device : DeviceId) (nets : Array Net) (connection : Connection) : Array Net :=
  nets.modify connection.ref.net.index fun net =>
    { net with endpoints := net.endpoints.push ⟨device, connection.pin⟩ }

/-- Stores a device under the next number and notes its pins on their nets. -/
def pushDevice (scope : ScopeId) (name : Name) (kind : DeviceKind) (connections : List Connection)
    (span : Span) (design : Design) : DeviceId × Design :=
  let id : DeviceId := ⟨design.devices.size⟩
  (id, { design with
    nets := connections.foldl (attach id) design.nets
    devices := design.devices.push ⟨id, name, scope, kind, kind.connect connections, span⟩ })

end Design

/-- Steps that build a design. A step that stops leaves what was built before it. -/
abbrev Build := ExceptT Stop (StateM Design)

namespace Build

def runOn (run : Build α) (design : Design) : Except Stop α × Design := run.run.run design

def fail (fault : Fault) : Build α := throw (.fault fault)

def ensure : Except Fault α → Build α
  | .ok value => pure value
  | .error fault => fail fault

def net (id : NetId) : Build Net := do
  match (← get).net? id with
  | some net => return net
  | none => throw (.missingNet id)

def nameText (name : Name) : Build String := do
  match (← get).names.text? name with
  | some text => return text
  | none => throw (.missingName name)

def intern (text : String) : Build Name := modifyGet (Design.intern text)

def report (diagnostic : Diagnostic) : Build Unit :=
  modify fun design => { design with log := design.log.report diagnostic }

def addScope (text : String) (parent : ScopeId) : Build ScopeId := do
  let name ← intern text
  modifyGet (Design.pushScope name parent)

def addFunction (scope : ScopeId) (result : Port) (ports : List Port) : Build FunctionId :=
  modifyGet (Design.pushFunction scope result ports)

/-- Stores a net of any origin; a real net has to have width 1. -/
def addNet (scope : ScopeId) (name : Name) (origin : NetOrigin) (type : ValueType)
    (isLocal : Bool) (span : Span) : Build NetId := do
  if type.domain.isReal && type.width != 1 then
    fail (.wideReal (← nameText name) type.width)
  else
    modifyGet (Design.pushNet scope name origin type isLocal span)

def addSignal (scope : ScopeId) (text : String) (type : ValueType) (span : Span) : Build NetId := do
  addNet scope (← intern text) .declared type false span

/-- Declares a memory: a net for each word, named by its index, and then the net of the memory. -/
def addMemory (scope : ScopeId) (text : String) (width : Nat) (signed : Bool) (first last : Int)
    (span : Span) : Build NetId := do
  let type := ValueType.vector width signed
  let words ← (MemoryWords.indexes first last).mapM fun index =>
    addSignal scope s!"{text}[{index}]" type span
  let memory ← addSignal scope text type span
  modify (Design.nameMemory memory ⟨first, last, words.toArray⟩)
  return memory

def localName (scope : ScopeId) : Build Name := do
  match (← get).scope? scope with
  | none => fail (.unknownScope scope)
  | some found => modifyGet (Design.nameLocal scope found.nextLocal)

def addLocal (scope : ScopeId) (type : ValueType) (span : Span) : Build NetId := do
  addNet scope (← localName scope) .implicit type true span

/-- Makes a device, if its connections keep the contract of its kind and its scope exists. -/
def addDevice (scope : ScopeId) (kind : DeviceKind) (connections : List Connection) (span : Span) :
    Build DeviceId := do
  ensure ((← get).check kind connections)
  let name ← localName scope
  modifyGet (Design.pushDevice scope name kind connections span)

/-- Makes a net for an intermediate value and the device that drives it, both in one scope. What the
device is may take further steps, which come between the two. -/
def drive (scope : ScopeId) (type : ValueType) (span : Span)
    (device : NetId → Build (DeviceKind × List Connection)) : Build NetId := do
  let out ← addLocal scope type span
  let (kind, connections) ← device out
  let _ ← addDevice scope kind connections span
  return out

end Build

end NetSynth
