import Mathlib.Tactic.Common
import PolicyTree.Proofs.Access.Asking

namespace PolicyTree

variable {α β : Type}

-- Work that does not fail because something is not ready.
def NeverUnready (x : Except AccessError α) : Prop :=
  ∀ cause, x ≠ .error (.notInitialized cause)

namespace NeverUnready

variable {x : Except AccessError α} {f : α → Except AccessError β} {l : List α}

theorem ok {a : α} : NeverUnready (.ok a) := nofun

theorem error {e : AccessError} (h : ∀ cause, e ≠ .notInitialized cause) :
    NeverUnready (.error e : Except AccessError α) :=
  fun cause he => h cause (Except.error.inj he)

theorem tree {x : Except TreeError α} : NeverUnready (liftM x : Except AccessError α) := by
  cases x <;> exact nofun

theorem entry {x : Except EntryError α} : NeverUnready (liftM x : Except AccessError α) := by
  cases x <;> exact nofun

theorem bind (hx : NeverUnready x) (hf : ∀ a, NeverUnready (f a)) : NeverUnready (x >>= f) := by
  cases x
  case error e => exact .error fun cause he => hx cause (congrArg Except.error he)
  case ok a    => exact hf a

theorem mapM (h : ∀ a, NeverUnready (f a)) : NeverUnready (l.mapM f) := by
  induction l
  case nil => exact .ok
  case cons a l hi =>
    rw [List.mapM_cons]
    exact (h a).bind fun _ => hi.bind fun _ => .ok

theorem foldlM {f : β → α → Except AccessError β} {b : β} (h : ∀ b a, NeverUnready (f b a)) :
    NeverUnready (l.foldlM f b) := by
  induction l generalizing b
  case nil => exact .ok
  case cons a l hi =>
    rw [List.foldlM_cons]
    exact (h b a).bind fun _ => hi

end NeverUnready

variable {tree : TreeView} {r : Registry} {ps : PrincipalSet} {node owner entry : NodeHandle}
  {path name : String}

theorem neverUnready_locate : NeverUnready (locate tree path) := by
  have go (l : List String) : NeverUnready (locate.go tree path l) := by
    induction l
    case nil => exact .error nofun
    case cons p l hi =>
      refine NeverUnready.tree.bind fun found => ?_
      cases found
      case none   => exact hi
      case some _ => exact .ok
  exact go _

theorem neverUnready_ownerAbove {k : Nat} : NeverUnready (ownerAbove tree k node) := by
  induction k generalizing node
  case zero => exact .ok
  case succ k hi =>
    refine NeverUnready.tree.bind fun parent => ?_
    cases parent
    case none   => exact .error nofun
    case some _ => exact hi

theorem neverUnready_governing : NeverUnready (governing tree node) := by
  refine NeverUnready.tree.bind fun isList => ?_
  cases isList
  case true => exact neverUnready_ownerAbove.bind fun _ => .ok
  case false =>
    refine NeverUnready.tree.bind fun isEntry => ?_
    cases isEntry
    case true  => exact neverUnready_ownerAbove.bind fun _ => .ok
    case false => exact .ok

theorem neverUnready_required {content? : Value → Option α} :
    NeverUnready (Policy.required tree entry name content?) := by
  refine NeverUnready.tree.bind fun found => ?_
  cases found.bind content?
  case none   => exact .error nofun
  case some _ => exact .ok

theorem neverUnready_get : NeverUnready (r.get name) := by
  unfold Registry.get
  split
  · exact .ok
  · exact .error nofun

theorem neverUnready_readEntry : NeverUnready (Policy.readEntry tree r owner entry) :=
  neverUnready_required.bind fun _ => neverUnready_required.bind fun _ =>
    (NeverUnready.mapM fun _ => neverUnready_get).bind fun _ =>
      NeverUnready.tree.bind fun _ => NeverUnready.tree.bind fun _ => NeverUnready.entry

theorem neverUnready_load : NeverUnready (Policy.load tree r owner) := by
  refine NeverUnready.tree.bind fun policy => ?_
  cases policy
  case none => exact .ok
  case some policy =>
    refine NeverUnready.tree.bind fun _ => (NeverUnready.foldlM fun p e => ?_).bind fun _ => .ok
    refine NeverUnready.tree.bind fun isEntry => ?_
    cases isEntry
    case true  => exact neverUnready_readEntry.bind fun _ => .ok
    case false => exact .ok

theorem neverUnready_collect : NeverUnready (collect tree r ps node) := by
  have go (k : Nat) (node : NodeHandle) : NeverUnready (Collection.levels.go tree r ps k node) := by
    induction k generalizing node
    case zero => exact .ok
    case succ k hi =>
      refine NeverUnready.bind (neverUnready_load.bind fun found => ?_) fun _ =>
        NeverUnready.tree.bind fun parent => ?_
      · cases found <;> exact .ok
      · cases parent
        case none   => exact .ok
        case some _ => exact (hi _).bind fun _ => .ok
  exact (go _ _).bind fun _ => .ok

theorem neverUnready_decideAfresh : NeverUnready (decideAfresh tree r ps path) :=
  neverUnready_locate.bind fun _ => neverUnready_governing.bind fun _ =>
    neverUnready_collect.bind fun _ => .ok

-- An open evaluator never says that it is not ready.
theorem neverUnready_grants {b : Bench} {permissions : Permissions}
    (isOpen : b.evaluator.isClosed = false) :
    NeverUnready ((EvaluatorM.grants tree r path permissions).run.run b).1 := by
  have nothing : Sustains tree r b.evaluator.principals (fun _ _ => True) (fun _ _ => True)
      (fun _ _ => True) := ⟨fun _ _ => trivial, fun _ _ => trivial, fun _ _ => trivial⟩
  intro cause failed
  rcases hr : (EvaluatorM.decision tree r path).run.run b with ⟨answer, b'⟩
  have ⟨answered, _⟩ := EvaluatorM.answers_decision nothing b rfl isOpen
    ⟨fun _ _ _ => trivial, fun _ _ _ => trivial, fun _ _ _ => trivial⟩ _ _ hr
  rw [EvaluatorM.grants_eq, EvaluatorM.run_map, hr] at failed
  cases answer
  case ok => exact nomatch failed
  case error e =>
    obtain rfl := Except.error.inj failed
    exact neverUnready_decideAfresh cause answered

end PolicyTree
