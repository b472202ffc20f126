import PolicyTree.Proofs.Access.Removing
import PolicyTree.Proofs.Policy.Framing

namespace PolicyTree

namespace TreeView

variable {v : TreeView} {isType : NodeHandle → String → Except TreeError Bool} {x : NodeId}
  {r : Registry} {ps : PrincipalSet} {o : NodeHandle} {path : String}

-- Some types are told of a node that were not told of it before. It has no policy, and neither is
-- it access control content nor does it become that.
structure Retypes (v : TreeView) (isType : NodeHandle → String → Except TreeError Bool)
    (x : NodeId) : Prop where
  others : ∀ {o : NodeHandle} {type : String}, o.id ≠ x → isType o type = v.isType o type
  list   : ∀ {o : NodeHandle}, isType o Policy.listType = v.isType o Policy.listType
  entry  : ∀ {o : NodeHandle}, isType o Policy.entryType = v.isType o Policy.entryType
  plain  : ∀ {o : NodeHandle}, o.id = x → v.isType o Policy.entryType = .ok false
  bare   : ∀ {o : NodeHandle}, o.id = x → v.child o Policy.nodeName = .ok none
  known  : ∀ {o : NodeHandle}, o.id = x → ∃ isControlled, v.isType o Policy.mixin = .ok isControlled
  known' : ∀ {o : NodeHandle}, o.id = x → ∃ isControlled, isType o Policy.mixin = .ok isControlled

namespace Retypes

variable (h : v.Retypes isType x)

include h

theorem node_eq : Policy.node? { v with isType } o = Policy.node? v o := by
  by_cases ho : o.id = x
  case neg => simp only [Policy.node?, h.others ho, h.list]
  case pos =>
    have bare (tree : TreeView) (hc : tree.child o Policy.nodeName = .ok none)
        (hk : ∃ isControlled, tree.isType o Policy.mixin = .ok isControlled) :
        Policy.node? tree o = .ok none := by
      obtain ⟨isControlled, hk⟩ := hk
      rw [Policy.node?, hk, hc]
      cases isControlled <;> rfl
    rw [bare v (h.bare ho) (h.known ho), bare { v with isType } (h.bare ho) (h.known' ho)]

theorem load_eq : Policy.load { v with isType } r o = Policy.load v r o := by
  have step (p : Policy) (e : NodeHandle) :
      (do if !(← isType e Policy.entryType) then return p
          return p.add (← Policy.readEntry { v with isType } r o e) : Except AccessError Policy) =
      (do if !(← v.isType e Policy.entryType) then return p
          return p.add (← Policy.readEntry v r o e)) := by
    rw [h.entry]
    by_cases he : e.id = x
    case pos =>
      rw [h.plain he]
      rfl
    case neg =>
      have read : Policy.readEntry { v with isType } r o e = Policy.readEntry v r o e :=
        Policy.readEntry_congr (fun _ => rfl) rfl (h.others he)
      rw [read]
  simp only [Policy.load, h.node_eq, step]

theorem levels_eq : Collection.levels { v with isType } r ps o = Collection.levels v r ps o := by
  have go (k : Nat) : Collection.levels.go { v with isType } r ps k o =
      Collection.levels.go v r ps k o := by
    induction k generalizing o
    case zero => rfl
    case succ k hi => simp only [Collection.levels.go, Collection.level, h.load_eq, hi]
  exact go _

theorem collect_eq : collect { v with isType } r ps o = collect v r ps o := by
  rw [collect, collect, h.levels_eq]

theorem isContent_eq : Policy.isContent { v with isType } o = Policy.isContent v o := by
  simp only [Policy.isContent, h.list, h.entry]

omit h in
theorem locate_eq : locate { v with isType } path = locate v path := by
  have go (ps : List String) : locate.go { v with isType } path ps = locate.go v path ps := by
    induction ps
    case nil           => rfl
    case cons p ps hi => simp only [locate.go, hi]
  exact go _

theorem governing_eq : governing { v with isType } o = governing v o := by
  have above (k : Nat) (o : NodeHandle) :
      ownerAbove { v with isType } k o = ownerAbove v k o := by
    induction k generalizing o
    case zero      => rfl
    case succ k hi => simp only [ownerAbove, hi]
  simp only [governing, h.list, h.entry, above]

theorem decideAfresh_eq : decideAfresh { v with isType } r ps path = decideAfresh v r ps path := by
  simp only [decideAfresh, locate_eq, h.governing_eq, h.collect_eq]

omit h in
theorem readTarget_eq {item : Option NodeId} :
    EvaluatorM.readTarget { v with isType } path item = EvaluatorM.readTarget v path item := by
  simp only [EvaluatorM.readTarget, locate_eq]

theorem readOnly_isContent_eq : ReadOnly.isContent { v with isType } path =
    ReadOnly.isContent v path := by
  simp only [ReadOnly.isContent, locate_eq, h.isContent_eq]

end Retypes

end TreeView

namespace Store

variable {s s' : Store} {t : NodeTypes} {x id : NodeId} {n : Node} {mixins : List String}
  {path : String}

-- Where the nodes are, and what they hold but for mixins, is told as before.

theorem Edited.size_eq {edit : Node → Node} (e : Edited s s' x edit) :
    s'.nodes.size = s.nodes.size := by
  have perm : s'.nodes.keys.Perm s.nodes.keys := by
    refine (List.perm_ext_iff_of_nodup Std.ExtTreeMap.nodup_keys Std.ExtTreeMap.nodup_keys).2 ?_
    simp only [Std.ExtTreeMap.mem_keys]
    exact fun _ => ⟨e.mem, e.mem_of_mem⟩
  simpa using perm.length_eq

theorem Edited.handle_eq {edit : Node → Node} (wf : s.WellFormed) (e : Edited s s' x edit) :
    s'.handle? id = s.handle? id := by
  have follows : Follows s s' := .written wf (.edited e : Written s s' s.root)
  rw [handle?, handle?, follows.pathOf_eq wf (wf.edited e) ⟨e.mem, e.mem_of_mem⟩]

theorem Edited.resolve_eq {edit : Node → Node} (wf : s.WellFormed) (e : Edited s s' x edit) :
    s'.resolve path = s.resolve path := by
  have child : s'.child? = s.child? := funext₂ fun _ _ => e.child_eq wf
  rw [resolve, resolve, e.root, child]

theorem Edited.get_eq (e : Edited s s' x (Node.gain mixins)) :
    s'.get id = (fun n => if id = x then n.gain mixins else n) <$> s.get id := by
  unfold get
  rw [e.nodes]
  cases s.nodes[id]? <;> rfl

theorem Edited.view_eq (wf : s.WellFormed) (e : Edited s s' x (Node.gain mixins)) :
    s'.view t = { s.view t with isType := (s'.view t).isType } := by
  have handle : s'.handle? = s.handle? := funext fun _ => e.handle_eq wf
  have getHandle : s'.getHandle = s.getHandle := funext fun _ => by
    rw [Store.getHandle, Store.getHandle, handle]
  have child : s'.child? = s.child? := funext₂ fun _ _ => e.child_eq wf
  have resolve : s'.resolve = s.resolve := funext fun _ => e.resolve_eq wf
  have get {α : Type} {id : NodeId} {f : Node → Except TreeError α}
      (hf : ∀ n, f (n.gain mixins) = f n) : s'.get id >>= f = s.get id >>= f := by
    rw [e.get_eq]
    cases s.get id
    case error => rfl
    case ok n =>
      show f (if id = x then n.gain mixins else n) = f n
      split
      · exact hf n
      · rfl
  have there {id : NodeId} : discard (s'.get id) = discard (s.get id) := by
    rw [e.get_eq]
    cases s.get id <;> rfl
  simp only [view, e.root, handle, getHandle, child, resolve, e.size_eq, there, TreeView.mk.injEq,
    true_and, and_true]
  exact ⟨funext fun _ => get fun _ => rfl, funext fun _ => get fun _ => rfl,
    funext fun _ => get fun _ => rfl, funext₂ fun _ _ => get fun _ => rfl,
    funext fun _ => get fun _ => rfl⟩

variable {r : Registry} {ps : PrincipalSet}

theorem Edited.retypes (e : Edited s s' x (Node.gain mixins))
    (plain : ¬s.IsPolicyItem t x) (plain' : ¬s'.IsPolicyItem t x)
    (bare : s.child? x Policy.nodeName = none) :
    (s.view t).Retypes (s'.view t).isType x := by
  have ⟨n, hn, _⟩ := e.node
  have ⟨n', hn', _⟩ := WellFormed.after_edit e hn
  obtain ⟨list, entry⟩ := not_or.1 plain
  obtain ⟨list', entry'⟩ := not_or.1 plain'
  have others {o : NodeHandle} {type : String} (ho : o.id ≠ x) :
      (s'.view t).isType o type = (s.view t).isType o type := by
    show (do return type ∈ t.expand (← s'.get o.id).types : Except TreeError Bool) = _
    rw [e.get_eq]
    simp only [ho, if_false, id_map']
    rfl
  have same {o : NodeHandle} {type : String} (h : type ∉ s.effectiveTypes t x)
      (h' : type ∉ s'.effectiveTypes t x) :
      (s'.view t).isType o type = (s.view t).isType o type := by
    by_cases ho : o.id = x
    case neg => exact others ho
    case pos =>
      rw [view_isType (ho ▸ hn'), view_isType (ho ▸ hn), ho, decide_eq_false h, decide_eq_false h']
  refine ⟨others, same list list', same entry entry', fun ho => ?_, fun ho => ?_, fun ho => ?_,
    fun ho => ?_⟩
  · rw [view_isType (ho ▸ hn), ho, decide_eq_false entry]
  · rw [view_child (ho ▸ hn), ho, bare]
    rfl
  · exact ⟨_, view_isType (ho ▸ hn)⟩
  · exact ⟨_, view_isType (ho ▸ hn')⟩

end Store

-- What an evaluator that is at home answers about an item.
theorem Bench.AtHome.canRead_item {s : Store} {t : NodeTypes} {r : Registry} {ps : PrincipalSet}
    {b : Bench} {path : String} {item : Option NodeId} (h : b.AtHome s t r ps) (wf : s.WellFormed) :
    ((EvaluatorM.canRead (s.view t) r path item).run.run b).1 =
      (·.grants .read) <$> (EvaluatorM.readTarget (s.view t) path item >>= fun node =>
        decideAfresh (s.view t) r ps node.path) := by
  rcases hr : (EvaluatorM.canRead (s.view t) r path item).run.run b with ⟨answer, b'⟩
  have ⟨answered, _⟩ :=
    EvaluatorM.answers_canRead (sustains wf) b h.principals h.isOpen h.holds _ _ hr
  cases answer
  case ok =>
    obtain ⟨node, ht, read⟩ := answered
    rw [ht]
    exact (read _ (wf.handle_of_readTarget ht)).symm
  case error =>
    rw [show (EvaluatorM.readTarget (s.view t) path item >>= fun node =>
      decideAfresh (s.view t) r ps node.path) = .error _ from answered]
    rfl

namespace Store

variable {s s' : Store} {t : NodeTypes} {x : NodeId} {mixins : List String}

-- Whatever new evaluators for some principals find out in one tree, or fail to, they do in another.
structure DecidesLike (s s' : Store) (t : NodeTypes) : Prop where
  acl      : ∀ (r : Registry) (ps : PrincipalSet) (b b' : Bench) (path : String), b.Built s t r ps →
    b'.Built s' t r ps →
    ((EvaluatorM.decision (s'.view t) r path).run.run b').1 =
      ((EvaluatorM.decision (s.view t) r path).run.run b).1 ∧
    ∀ item, ((EvaluatorM.canRead (s'.view t) r path item).run.run b').1 =
      ((EvaluatorM.canRead (s.view t) r path item).run.run b).1
  readOnly : ∀ path : String, ReadOnly.privileges (s'.view t) path =
      ReadOnly.privileges (s.view t) path ∧
    ∀ permissions, ReadOnly.grants (s'.view t) path permissions =
      ReadOnly.grants (s.view t) path permissions

theorem Edited.decidesLike (wf : s.WellFormed) (e : Edited s s' x (Node.gain mixins))
    (plain : ¬s.IsPolicyItem t x) (plain' : ¬s'.IsPolicyItem t x)
    (bare : s.child? x Policy.nodeName = none) : s.DecidesLike s' t := by
  have retypes := e.retypes plain plain' bare
  have view := e.view_eq (t := t) wf
  have decided {r : Registry} {ps : PrincipalSet} {path : String} :
      decideAfresh (s'.view t) r ps path = decideAfresh (s.view t) r ps path := by
    rw [view, retypes.decideAfresh_eq]
  have target {path : String} {item : Option NodeId} :
      EvaluatorM.readTarget (s'.view t) path item = EvaluatorM.readTarget (s.view t) path item := by
    rw [view, TreeView.Retypes.readTarget_eq]
  have content {path : String} :
      ReadOnly.isContent (s'.view t) path = ReadOnly.isContent (s.view t) path := by
    rw [view, retypes.readOnly_isContent_eq]
  refine ⟨fun r ps b b' path hb hb' => ⟨?_, fun item => ?_⟩,
    fun path => ⟨?_, fun permissions => ?_⟩⟩
  · rw [hb.decision wf, hb'.decision (wf.edited e), decided]
  · rw [hb.atHome.canRead_item wf, hb'.atHome.canRead_item (wf.edited e), target]
    simp only [decided]
  · rw [ReadOnly.privileges, ReadOnly.privileges, content]
  · rw [ReadOnly.grants, ReadOnly.grants, content]

end Store

end PolicyTree
