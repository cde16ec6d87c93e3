import FormulaSheet.Distinct
import FormulaSheet.Fields

/-!
# Capability policies

A policy says which names an expression may not use, and which functions of which namespaces it
may. It is a list of known names and no sandbox.
-/

namespace FormulaSheet

/-- Denied names, and the allowed methods of each namespace, in the order in which they were first
given. -/
structure Policy where
  denied : List String
  spaces : Fields (List String)
deriving DecidableEq, Repr

namespace Policy

def empty : Policy := ⟨[], []⟩

def deny (p : Policy) (name : String) : Policy := ⟨addNew p.denied name, p.spaces⟩

def allow (p : Policy) (space : String) (methods : List String) : Policy :=
  ⟨p.denied,
    Fields.insert p.spaces space (methods.foldl addNew ((Fields.get? p.spaces space).getD []))⟩

def isDenied (p : Policy) (name : String) : Bool := p.denied.contains name

def isSpace (p : Policy) (name : String) : Bool := Fields.contains p.spaces name

def isAllowed (p : Policy) (space method : String) : Bool :=
  ((Fields.get? p.spaces space).map (·.contains method)).getD false

/-- The namespaces in the order in which they were first given. -/
def spaceNames (p : Policy) : List String := Fields.keys p.spaces

/-- The names that run code, wait, talk to a network or a host, or store anything. -/
def defaultDenied : List String :=
  ["eval", "Function", "import", "require",
   "setTimeout", "setInterval", "setImmediate", "queueMicrotask",
   "fetch", "XMLHttpRequest", "WebSocket", "Worker", "postMessage",
   "process", "window", "document", "globalThis", "self", "navigator", "location", "history",
   "localStorage", "sessionStorage", "indexedDB",
   "crypto", "atob", "btoa", "Reflect", "Proxy"]

def defaultSpaces : List (String × List String) :=
  [("Math",
    ["abs", "acos", "asin", "atan", "atan2", "ceil", "cos", "exp", "floor", "log", "max",
     "min", "pow", "random", "round", "sin", "sqrt", "tan"]),
   ("Number", ["isFinite", "isInteger", "isNaN", "parseFloat", "parseInt"]),
   ("String", ["fromCharCode", "fromCodePoint"]),
   ("Array", ["isArray"]),
   ("Date",
    ["now", "parse", "UTC", "toISOString", "toLocaleString", "toLocaleDateString",
     "toLocaleTimeString", "toString", "valueOf"]),
   ("JSON", ["parse", "stringify"])]

/-- The policy of a sheet that is given no other. -/
def default : Policy :=
  defaultSpaces.foldl (fun p s => p.allow s.1 s.2) (defaultDenied.foldl deny empty)

end Policy

end FormulaSheet
