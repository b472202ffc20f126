import PolicyTree.Proofs.Tree.Succeeding

namespace PolicyTree

inductive Write where
  | addNode (parent : NodeHandle) (name type : String)
  | addMixin (node : NodeHandle) (mixin : String)
  | setProperty (node : NodeHandle) (name : String) (value : Value)
  | removeProperty (node : NodeHandle) (name : String)
  | removeNode (node : NodeHandle)

-- What it makes of a tree. A node that is added gets the given id.
def Write.change (id : NodeId) : Write → Store → Except TreeError Store
  | addNode parent name type, s    => s.addNode id parent.id name type
  | addMixin node mixin, s         => s.addMixin node.id mixin
  | setProperty node name value, s => s.setProperty node.id name value
  | removeProperty node name, s    => (·.2) <$> s.removeProperty node.id name
  | removeNode node, s             => s.removeNode node.id

-- A write that was made, with the id that was free at the time.
structure Change where
  write : Write
  id    : NodeId

namespace Store

-- A write that is refused leaves the tree as it is.
def after (s : Store) (c : Change) : Store := (c.write.change c.id s).toOption.getD s

inductive Turn (s : Store) : Store → Prop
  | write (c : Change) (fresh : c.id ∉ s.nodes) : Turn s (s.after c)

abbrev Turns : Store → Store → Prop := Relation.ReflTransGen Turn

def Reachable (s : Store) : Prop := ∃ root type, (initial root type).Turns s

-- Writes one after the other, each with an id that is free at the time.

def afterAll (s : Store) (cs : List Change) : Store := cs.foldl after s

def Fresh : Store → List Change → Prop
  | _, []      => True
  | s, c :: cs => c.id ∉ s.nodes ∧ Fresh (s.after c) cs

instance decidableFresh : ∀ s cs, Decidable (Fresh s cs)
  | _, []      => inferInstanceAs (Decidable True)
  | s, c :: cs =>
    have := decidableFresh (s.after c) cs
    inferInstanceAs (Decidable (_ ∧ _))

variable {s s' : Store} {id : NodeId} {n : Node} {c : Change} {path : String} {ns : List String}

theorem turns_afterAll {cs : List Change} (h : Fresh s cs) : s.Turns (s.afterAll cs) := by
  induction cs generalizing s
  case nil          => exact .refl
  case cons c cs hi => exact .head (.write c h.1) (hi h.2)

theorem reachable_afterAll {root : NodeId} {type : String} {cs : List Change}
    (h : Fresh (initial root type) cs) : ((initial root type).afterAll cs).Reachable :=
  ⟨root, type, turns_afterAll h⟩

theorem written_of_change (fresh : c.id ∉ s.nodes) (h : c.write.change c.id s = .ok s') :
    Written s s' c.id := by
  cases hw : c.write <;> rw [hw] at h
  case addNode =>
    exact .added (added_of_addNode (Std.ExtTreeMap.getElem?_eq_none fresh) h)
  case addMixin    => exact .edited (edited_of_addMixin h)
  case setProperty => exact .edited (edited_of_setProperty h)
  case removeProperty =>
    have ⟨⟨_, _⟩, h, rfl⟩ := map_eq_ok_iff.1 h
    exact .edited (edited_of_removeProperty h)
  case removeNode =>
    have ⟨_, removed⟩ := removed_of_removeNode h
    exact .removed removed

theorem Turn.cases_written (h : s.Turn s') : s' = s ∨ ∃ fresh, Written s s' fresh := by
  cases h with
  | write c fresh =>
    unfold after
    cases hc : c.write.change c.id s
    case error => exact .inl rfl
    case ok    => exact .inr ⟨c.id, written_of_change fresh hc⟩

theorem Written.root_eq {fresh : NodeId} (h : Written s s' fresh) : s'.root = s.root := by
  cases h
  case added ha   => exact ha.root
  case removed hr => exact hr.root
  case edited he  => exact he.root

theorem Turns.root_eq (h : s.Turns s') : s'.root = s.root := by
  induction h
  case refl => rfl
  case tail t hi =>
    cases t.cases_written
    case inl hs => exact hs ▸ hi
    case inr hw =>
      have ⟨_, hw⟩ := hw
      exact hw.root_eq.trans hi

namespace WellFormed

theorem turn (h : s.WellFormed) (ht : s.Turn s') : s'.WellFormed := by
  cases ht.cases_written
  case inl hs => exact hs ▸ h
  case inr hw =>
    have ⟨_, hw⟩ := hw
    exact h.written hw

theorem turns (h : s.WellFormed) (ht : s.Turns s') : s'.WellFormed := by
  induction ht
  case refl      => exact h
  case tail t hi => exact hi.turn t

end WellFormed

theorem Reachable.wellFormed (h : s.Reachable) : s.WellFormed := by
  have ⟨_, _, turns⟩ := h
  exact wellFormed_initial.turns turns

-- A tree as its nodes tell it.
structure IsTree (s : Store) : Prop where
  root     : ∃ n, s.nodes[s.root]? = some n ∧ n.parent = none
  parent   : ∀ {id : NodeId} {n : Node}, s.nodes[id]? = some n → id ≠ s.root →
    ∃ p pn, n.parent = some p ∧ s.nodes[p]? = some pn ∧ pn.children.count id = 1
  listed   : ∀ {p id : NodeId} {pn : Node}, s.nodes[p]? = some pn → id ∈ pn.children →
    s.IsParent p id
  siblings : ∀ {a b p : NodeId} {an bn : Node}, s.nodes[a]? = some an → s.nodes[b]? = some bn →
    an.parent = some p → bn.parent = some p → an.name = bn.name → a = b
  acyclic  : ∀ id, ¬Relation.TransGen s.IsParent id id
  rooted   : ∀ id ∈ s.nodes, Relation.ReflTransGen s.IsParent s.root id

namespace WellFormed

variable (h : s.WellFormed)

include h

theorem root_mem : s.root ∈ s.nodes :=
  mem_nodes_iff.2 (h.root.imp fun _ hn => hn.1)

-- The way to a node is longer than the way to any node above it.
theorem acyclic : ¬Relation.TransGen s.IsParent id id := by
  intro cycle
  have ⟨p, down, n, hn, hp⟩ := Relation.TransGen.tail'_iff.1 cycle
  have ⟨pn, hpn, _⟩ := h.listed hn hp
  have ⟨ns, hs⟩ := h.stands hpn
  have ⟨ms, hm, hms⟩ := (h.descends_iff hs).1 down
  obtain rfl := h.stands_unique hms (.child hs hp hn)
  exact absurd hm.length_le (by simp)

theorem isTree : s.IsTree where
  root     := h.root
  parent hn hr := by
    cases hp : Node.parent _
    case none => exact absurd (h.orphan hn hp) hr
    case some p =>
      have ⟨pn, hpn, hc⟩ := h.listed hn hp
      exact ⟨p, pn, rfl, hpn, List.count_eq_one_of_mem (h.nodup hpn) hc⟩
  listed   := h.child
  siblings := h.distinct
  acyclic _ := h.acyclic
  rooted id hid := by
    have ⟨n, hn⟩ := mem_nodes_iff.1 hid
    have ⟨ns, hs⟩ := h.stands hn
    exact (h.descends_iff hs).2 ⟨[], List.nil_prefix, .root⟩

theorem resolve_eq_some_iff : s.resolve path = .ok (some id) ↔ s.pathOf? id = some path := by
  constructor
  case mp =>
    intro hr
    have hv : Path.validate path = .ok () := by
      simp only [resolve, bind_eq_ok_iff, liftM_path_eq_ok_iff] at hr
      exact hr.elim fun _ hr => hr.1
    obtain ⟨ns, hns, hpath⟩ := Path.exists_names_of_validate hv
    rw [hpath, resolve_ofNames hns] at hr
    rw [hpath, h.pathOf_eq (h.foldlM_child_iff.1 (Except.ok.inj hr))]
  case mpr =>
    intro hp
    obtain ⟨ns, hs, hpath⟩ := h.stands_of_pathOf hp
    rw [hpath, resolve_ofNames (h.isSegment_of_stands hs), h.foldlM_child_iff.2 hs]

-- Only the parent lists the node, so that all that is left is as it was but for its lists.
theorem removeNode_eq (hid : id ∈ s.nodes) (hr : id ≠ s.root) :
    ∃ s', s.removeNode id = .ok s' ∧ ∀ x n', s'.nodes[x]? = some n' ↔
      ¬Relation.ReflTransGen s.IsParent id x ∧
      ∃ n, s.nodes[x]? = some n ∧ n' = { n with children := n.children.filter (· ≠ id) } := by
  have ⟨n, hn⟩ := mem_nodes_iff.1 hid
  have ⟨p, _, hp, _⟩ := h.isTree.parent hn hr
  have ⟨s', hs'⟩ := removeNode_succeeds h hn hp
  have ⟨q, removed⟩ := removed_of_removeNode hs'
  refine ⟨s', hs', fun x n' => ?_⟩
  have same {xn : Node} (hx : s.nodes[x]? = some xn) :
      (if x = q then xn.children.filter (· ≠ id) else xn.children) =
        xn.children.filter (· ≠ id) := by
    split
    case isTrue  => rfl
    case isFalse hxq =>
      refine (List.filter_eq_self.2 fun c hc => ?_).symm
      have ⟨m, hm, hmx⟩ := h.child hx hc
      have ⟨n, hn, hnq⟩ := removed.node
      rw [decide_eq_true_eq]
      rintro rfl
      obtain rfl := Option.some_inj.1 (hn.symm.trans hm)
      exact hxq (Option.some_inj.1 (hmx.symm.trans hnq))
  rw [removed.nodes]
  cases hx : s.nodes[x]?
  case none => simp
  case some xn =>
    have within : s.isWithin id x ↔ Relation.ReflTransGen s.IsParent id x := by
      have : x ∈ s.nodes := mem_nodes_iff.2 ⟨xn, hx⟩
      simp [h.isWithin_iff_descends, this]
    simp only [Option.map_some, same hx]
    by_cases hw : Relation.ReflTransGen s.IsParent id x
    case pos => simp [within.2 hw, hw]
    case neg => simp [within.not.2 hw, hw, eq_comm]

end WellFormed

-- What writes make of a lone root is a tree. All nodes have valid paths, which lead back to them,
-- and a node other than the root goes with those below it and with no other.
theorem writes_keep_tree (h : s.Reachable) : s.IsTree ∧
    (∀ id ∈ s.nodes, ∃ path, s.pathOf? id = some path ∧ Path.validate path = .ok ()) ∧
    (∀ id path, s.resolve path = .ok (some id) ↔ s.pathOf? id = some path) ∧
    ∀ id ∈ s.nodes, id ≠ s.root → ∃ s', s.removeNode id = .ok s' ∧
      ∀ x n', s'.nodes[x]? = some n' ↔ ¬Relation.ReflTransGen s.IsParent id x ∧
        ∃ n, s.nodes[x]? = some n ∧ n' = { n with children := n.children.filter (· ≠ id) } := by
  have wf := h.wellFormed
  refine ⟨wf.isTree, fun id hid => ?_, fun _ _ => wf.resolve_eq_some_iff, fun _ => wf.removeNode_eq⟩
  have ⟨n, hn⟩ := mem_nodes_iff.1 hid
  have ⟨ns, hs⟩ := wf.stands hn
  exact ⟨_, wf.pathOf_eq hs, Path.validate_ofNames (wf.isSegment_of_stands hs)⟩

-- Neither a second child of one name nor the end of the root is granted.
def family : Store := (initial ⟨0⟩ "rep:root").afterAll [
  ⟨.addNode ⟨⟨0⟩, "/"⟩ "a" "nt:unstructured", ⟨1⟩⟩,
  ⟨.addNode ⟨⟨1⟩, "/a"⟩ "b" "nt:unstructured", ⟨2⟩⟩,
  ⟨.addNode ⟨⟨0⟩, "/"⟩ "a" "nt:unstructured", ⟨3⟩⟩,
  ⟨.setProperty ⟨⟨2⟩, "/a/b"⟩ "title" (.string "below"), ⟨3⟩⟩,
  ⟨.removeNode ⟨⟨0⟩, "/"⟩, ⟨3⟩⟩]

theorem family_is_tree : family.Reachable ∧ family.IsTree ∧
    family.pathOf? ⟨2⟩ = some "/a/b" ∧ family.resolve "/a/b" = .ok (some ⟨2⟩) ∧
    ∃ s', family.removeNode ⟨1⟩ = .ok s' ∧ ⟨2⟩ ∉ s'.nodes := by
  have h : family.Reachable := reachable_afterAll (by decide +kernel)
  have ⟨tree, _, resolve, remove⟩ := writes_keep_tree h
  have path : family.pathOf? ⟨2⟩ = some "/a/b" := by decide +kernel
  have ⟨s', removed, nodes⟩ := remove ⟨1⟩ (by decide +kernel) (by decide +kernel)
  refine ⟨h, tree, path, (resolve _ _).2 path, s', removed, fun here => ?_⟩
  have ⟨n', hn'⟩ := mem_nodes_iff.1 here
  have below : family.IsParent ⟨1⟩ ⟨2⟩ :=
    Option.bind_eq_some_iff.1 (show family.nodes[(⟨2⟩ : NodeId)]? >>= (·.parent) = some ⟨1⟩ by
      decide +kernel)
  exact ((nodes _ _).1 hn').1 (.single below)

end Store

end PolicyTree
