import PolicyTree.Tree.View

namespace PolicyTree

inductive Fault where
  | fails | findsNothing
deriving DecidableEq, Repr

-- Each use of one of these calls fails, or finds nothing.
structure Faults where
  active : List (Call × Fault)
deriving DecidableEq, Repr

namespace Faults

def empty : Faults := ⟨[]⟩

def clear (f : Faults) (call : Call) : Faults := ⟨f.active.filter (·.1 ≠ call)⟩

def set (f : Faults) (call : Call) (fault : Fault) : Faults :=
  ⟨(call, fault) :: (f.clear call).active⟩

def get? (f : Faults) (call : Call) : Option Fault := f.active.lookup call

def check (f : Faults) (call : Call) : Except TreeError Unit :=
  if f.get? call = some .fails then .error (.failing call) else .ok ()

def answer {α : Type} (f : Faults) (call : Call) (x : Except TreeError α) : Except TreeError α := do
  f.check call
  x

def find {α : Type} (f : Faults) (call : Call) (x : Except TreeError (Option α)) :
    Except TreeError (Option α) := do
  f.check call
  if f.get? call = some .findsNothing then return none else x

end Faults

def TreeView.withFaults (t : TreeView) (f : Faults) : TreeView where
  root            := f.answer .root t.root
  resolve path    := f.find .resolve (t.resolve path)
  nodeById id     := f.find .nodeById (t.nodeById id)
  child n name    := f.find .child (t.child n name)
  children n      := f.answer .children (t.children n)
  parent n        := f.find .parent (t.parent n)
  nodeType n      := f.answer .nodeType (t.nodeType n)
  isType n type   := f.answer .isType (t.isType n type)
  property n name := f.find .property (t.property n name)
  propertyNames n := f.answer .propertyNames (t.propertyNames n)
  height          := t.height

end PolicyTree
