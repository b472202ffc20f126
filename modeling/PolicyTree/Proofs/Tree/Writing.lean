import Mathlib.Tactic.Common
import PolicyTree.Proofs.Success
import PolicyTree.Proofs.Tree.Location

namespace PolicyTree

-- Only content may be edited: mixins, which are never taken away, and properties.
structure Node.Edited (n n' : Node) : Prop where
  name        : n'.name = n.name
  parent      : n'.parent = n.parent
  primaryType : n'.primaryType = n.primaryType
  children    : n'.children = n.children
  mixins      : n.mixins <+: n'.mixins
  properties  : ∀ name ∈ n'.properties, name ∈ n.properties ∨ Store.IsPropertyName name

namespace Store

-- Every write, by lookup.

structure Added (s s' : Store) (id p : NodeId) (name type : String) : Prop where
  root   : s'.root = s.root
  fresh  : s.nodes[id]? = none
  parent : ∃ pn, s.nodes[p]? = some pn
  valid  : Path.validateName name = .ok ()
  free   : s.child? p name = none
  nodes  : ∀ x : NodeId, s'.nodes[x]? = if x = id then some (.new name (some p) type) else
    (s.nodes[x]?).map fun n => { n with children := n.children ++ if x = p then [id] else [] }

structure Removed (s s' : Store) (id p : NodeId) : Prop where
  root  : s'.root = s.root
  node  : ∃ n, s.nodes[id]? = some n ∧ n.parent = some p
  nodes : ∀ x : NodeId, s'.nodes[x]? = if s.isWithin id x then none else
    (s.nodes[x]?).map fun n =>
      { n with children := if x = p then n.children.filter (· ≠ id) else n.children }

structure Edited (s s' : Store) (id : NodeId) (edit : Node → Node) : Prop where
  root  : s'.root = s.root
  node  : ∃ n, s.nodes[id]? = some n ∧ n.Edited (edit n)
  nodes : ∀ x : NodeId, s'.nodes[x]? = (s.nodes[x]?).map fun n => if x = id then edit n else n

inductive Written (s s' : Store) (fresh : NodeId) : Prop
  | added {p : NodeId} {name type : String} (h : Added s s' fresh p name type)
  | removed {id p : NodeId} (h : Removed s s' id p)
  | edited {id : NodeId} {edit : Node → Node} (h : Edited s s' id edit)

variable {s s' : Store} {id p : NodeId} {name type : String}

@[simp] theorem get_eq_ok_iff {n : Node} : s.get id = .ok n ↔ s.nodes[id]? = some n := by
  unfold get
  cases s.nodes[id]? <;> simp

theorem added_of_addNode (hid : s.nodes[id]? = none) (h : s.addNode id p name type = .ok s') :
    Added s s' id p name type := by
  unfold addNode at h
  simp only [bind_eq_ok_iff, liftM_path_eq_ok_iff, discard_eq_ok_iff, get_eq_ok_iff] at h
  obtain ⟨_, hv, _, ⟨pn, hp⟩, h⟩ := h
  split at h
  case isTrue => simp at h
  case isFalse hc =>
    obtain rfl := pure_eq_ok_iff.1 h
    refine ⟨rfl, hid, ⟨pn, hp⟩, hv, by simpa using hc, fun x => ?_⟩
    have hpid : p ≠ id := by rintro rfl; simp [hp] at hid
    simp only [Std.ExtTreeMap.getElem?_modify, Std.ExtTreeMap.getElem?_insert,
      Std.LawfulEqCmp.compare_eq_iff_eq, eq_comm (b := x)]
    by_cases hx : x = p
    case pos => subst hx; simp [hp, hpid, Ne.symm hpid]
    case neg => simp [hx]

-- A new node is handed out as it stands in the tree.
theorem new_eq_ok_iff {o : NodeHandle} :
    (do let store ← s.addNode id p name type
        return (← store.getHandle id, store)) = .ok (o, s') ↔
      s.addNode id p name type = .ok s' ∧ s'.getHandle id = .ok o := by
  simp only [bind_eq_ok_iff, pure_eq_ok_iff, Prod.mk.injEq]
  constructor
  case mp =>
    rintro ⟨_, hs, _, ho, rfl, rfl⟩
    exact ⟨hs, ho⟩
  case mpr =>
    rintro ⟨hs, ho⟩
    exact ⟨s', hs, o, ho, rfl, rfl⟩

theorem removed_of_removeNode (h : s.removeNode id = .ok s') : ∃ p, Removed s s' id p := by
  unfold removeNode at h
  simp only [bind_eq_ok_iff, get_eq_ok_iff] at h
  obtain ⟨n, hn, h⟩ := h
  split at h
  case h_2 => simp at h
  case h_1 p hp =>
    simp only [bind_eq_ok_iff, discard_eq_ok_iff] at h
    obtain ⟨_, _, h⟩ := h
    obtain rfl := pure_eq_ok_iff.1 h
    refine ⟨p, rfl, ⟨n, hn, hp⟩, fun x => ?_⟩
    simp only [Std.ExtTreeMap.getElem?_modify, Std.LawfulEqCmp.compare_eq_iff_eq, getElem?_without,
      eq_comm (b := x)]
    by_cases hx : x = p
    case pos => subst hx; by_cases hw : s.isWithin id x <;> simp [hw]
    case neg => simp [hx]

theorem edited_of_insert {n : Node} (edit : Node → Node) (hn : s.nodes[id]? = some n)
    (he : n.Edited (edit n)) : Edited s { s with nodes := s.nodes.insert id (edit n) } id edit := by
  refine ⟨rfl, ⟨n, hn, he⟩, fun x => ?_⟩
  simp only [Std.ExtTreeMap.getElem?_insert, Std.LawfulEqCmp.compare_eq_iff_eq, eq_comm (b := x)]
  by_cases hx : x = id
  case pos => subst hx; simp [hn]
  case neg => simp [hx]

theorem edited_of_addMixin {mixin : String} (h : s.addMixin id mixin = .ok s') :
    Edited s s' id fun n =>
      { n with mixins := if mixin ∈ n.mixins then n.mixins else n.mixins ++ [mixin] } := by
  unfold addMixin at h
  simp only [bind_eq_ok_iff, get_eq_ok_iff] at h
  obtain ⟨n, hn, h⟩ := h
  split at h
  case isTrue hm =>
    obtain rfl := pure_eq_ok_iff.1 h
    refine ⟨rfl, ⟨n, hn, rfl, rfl, rfl, rfl, by simp [hm], fun _ => .inl⟩, fun x => ?_⟩
    by_cases hx : x = id
    case pos => subst hx; simp [hn, hm]
    case neg => simp [hx]
  case isFalse hm =>
    obtain rfl := pure_eq_ok_iff.1 h
    have := edited_of_insert
      (fun n => { n with mixins := if mixin ∈ n.mixins then n.mixins else n.mixins ++ [mixin] }) hn
      ⟨rfl, rfl, rfl, rfl, by simp [hm], fun _ => .inl⟩
    simpa [hm] using this

theorem edited_of_setProperty {value : Value} (h : s.setProperty id name value = .ok s') :
    Edited s s' id fun n => { n with properties := n.properties.insert name value } := by
  unfold setProperty at h
  simp only [bind_eq_ok_iff, liftM_path_eq_ok_iff] at h
  obtain ⟨_, hv, h⟩ := h
  split at h
  case isTrue => simp at h
  case isFalse named =>
    simp only [bind_eq_ok_iff, get_eq_ok_iff] at h
    obtain ⟨n, hn, h⟩ := h
    obtain rfl := pure_eq_ok_iff.1 h
    refine edited_of_insert (fun n => { n with properties := n.properties.insert name value }) hn ?_
    refine ⟨rfl, rfl, rfl, rfl, List.prefix_refl _, fun m hm => ?_⟩
    rcases Std.ExtTreeMap.mem_insert.1 hm with hm | hm
    · exact .inr (Std.LawfulEqCmp.compare_eq_iff_eq.1 hm ▸ ⟨hv, named⟩)
    · exact .inl hm

theorem edited_of_removeProperty {found : Bool} (h : s.removeProperty id name = .ok (found, s')) :
    Edited s s' id fun n => { n with properties := n.properties.erase name } := by
  unfold removeProperty at h
  simp only [bind_eq_ok_iff, get_eq_ok_iff] at h
  obtain ⟨n, hn, h⟩ := h
  obtain ⟨-, rfl⟩ := Prod.mk.inj (pure_eq_ok_iff.1 h)
  exact edited_of_insert (fun n => { n with properties := n.properties.erase name }) hn
    ⟨rfl, rfl, rfl, rfl, List.prefix_refl _, fun m hm => .inl (Std.ExtTreeMap.mem_of_mem_erase hm)⟩

-- The only node that comes is the one that is added.

theorem Added.mem {x : NodeId} (h : Added s s' id p name type) (hx : x ∈ s'.nodes) :
    x ∈ s.nodes ∨ x = id := by
  obtain ⟨n, hn⟩ := mem_nodes_iff.1 hx
  rw [h.nodes] at hn
  split at hn
  case isTrue hid => exact .inr hid
  case isFalse => exact .inl (mem_nodes_iff.2 ((Option.map_eq_some_iff.1 hn).imp fun _ hn => hn.1))

theorem Removed.mem {x : NodeId} (h : Removed s s' id p) (hx : x ∈ s'.nodes) : x ∈ s.nodes := by
  obtain ⟨n, hn⟩ := mem_nodes_iff.1 hx
  rw [h.nodes] at hn
  split at hn
  case isTrue  => simp at hn
  case isFalse => exact mem_nodes_iff.2 ((Option.map_eq_some_iff.1 hn).imp fun _ hn => hn.1)

theorem Edited.mem {edit : Node → Node} {x : NodeId} (h : Edited s s' id edit)
    (hx : x ∈ s'.nodes) : x ∈ s.nodes := by
  obtain ⟨n, hn⟩ := mem_nodes_iff.1 hx
  rw [h.nodes] at hn
  exact mem_nodes_iff.2 ((Option.map_eq_some_iff.1 hn).imp fun _ hn => hn.1)

-- No write breaks the tree.

-- Nodes on the way to a node stay on it as long as the way is left alone.
theorem Stands.transfer {ns : List String} {Q : NodeId → Prop} (hs : s.Stands ns id) (hid : Q id)
    (root : s'.root = s.root)
    (keep : ∀ {x : NodeId} {n : Node}, s.nodes[x]? = some n → Q x →
      ∃ n', s'.nodes[x]? = some n' ∧ n'.name = n.name ∧ n'.parent = n.parent)
    (up : ∀ {x y : NodeId} {n : Node}, s.nodes[x]? = some n → n.parent = some y → Q x → Q y) :
    s'.Stands ns id := by
  induction hs
  case root => exact root ▸ .root
  case child n above hp hn hi =>
    have ⟨n', hn', hname, hparent⟩ := keep hn hid
    exact hname ▸ .child (hi (up hn hp hid)) (hparent.trans hp) hn'

theorem wellFormed_initial : (initial id type).WellFormed := by
  have only {x : NodeId} {n : Node} (hn : (initial id type).nodes[x]? = some n) :
      x = id ∧ n = .new "" none type := by
    simp only [initial, Std.ExtTreeMap.getElem?_insert, Std.LawfulEqCmp.compare_eq_iff_eq] at hn
    split at hn <;> simp_all
  have root : (initial id type).nodes[(initial id type).root]? = some (.new "" none type) := by
    simp [initial]
  refine ⟨⟨_, root, rfl⟩, ?_, ?_, ?_, ?_, ?_, ?_, ?_, ?_⟩
  · exact fun hn _ => (only hn).1
  · intro x p n hn hp
    simp [(only hn).2, Node.new] at hp
  · intro p x pn hp hc
    simp [(only hp).2, Node.new] at hc
  · intro p pn hp
    simp [(only hp).2, Node.new]
  · intro a b p an bn ha hb _ _ _
    rw [(only ha).1, (only hb).1]
  · intro x p n hn hp
    simp [(only hn).2, Node.new] at hp
  · intro x n hn
    exact ⟨[], (only hn).1 ▸ .root⟩
  · intro x n name hn hp
    simp [(only hn).2, Node.new] at hp

namespace WellFormed

-- Every node after the edit is the one that it was before, but for its content.
theorem before_edit {edit : Node → Node} {x : NodeId} {n' : Node} (he : Edited s s' id edit)
    (hn' : s'.nodes[x]? = some n') : ∃ n, s.nodes[x]? = some n ∧ n.Edited n' := by
  rw [he.nodes, Option.map_eq_some_iff] at hn'
  obtain ⟨n, hn, rfl⟩ := hn'
  refine ⟨n, hn, ?_⟩
  split
  case isFalse => exact ⟨rfl, rfl, rfl, rfl, List.prefix_refl _, fun _ => .inl⟩
  case isTrue hx =>
    subst hx
    have ⟨m, hm, hedit⟩ := he.node
    obtain rfl := Option.some_inj.1 (hm.symm.trans hn)
    exact hedit

theorem after_edit {edit : Node → Node} {x : NodeId} {n : Node} (he : Edited s s' id edit)
    (hn : s.nodes[x]? = some n) : ∃ n', s'.nodes[x]? = some n' ∧ n.Edited n' := by
  have hn' : s'.nodes[x]? = some (if x = id then edit n else n) := by rw [he.nodes, hn]; rfl
  have ⟨m, hm, hedit⟩ := before_edit he hn'
  obtain rfl := Option.some_inj.1 (hm.symm.trans hn)
  exact ⟨_, hn', hedit⟩

theorem edited {edit : Node → Node} (h : s.WellFormed) (he : Edited s s' id edit) :
    s'.WellFormed where
  root := by
    have ⟨n, hn, hp⟩ := h.root
    have ⟨n', hn', e⟩ := after_edit he hn
    exact ⟨n', he.root ▸ hn', e.parent.trans hp⟩
  orphan hn' hp := by
    have ⟨n, hn, e⟩ := before_edit he hn'
    exact he.root ▸ h.orphan hn (e.parent ▸ hp)
  listed hn' hp := by
    have ⟨n, hn, e⟩ := before_edit he hn'
    have ⟨pn, hpn, hc⟩ := h.listed hn (e.parent ▸ hp)
    have ⟨pn', hpn', e'⟩ := after_edit he hpn
    exact ⟨pn', hpn', e'.children ▸ hc⟩
  child hp' hc := by
    have ⟨pn, hpn, e⟩ := before_edit he hp'
    have ⟨n, hn, hp⟩ := h.child hpn (e.children ▸ hc)
    have ⟨n', hn', e'⟩ := after_edit he hn
    exact ⟨n', hn', e'.parent.trans hp⟩
  nodup hp' := by
    have ⟨pn, hpn, e⟩ := before_edit he hp'
    exact e.children ▸ h.nodup hpn
  distinct ha' hb' hap hbp hname := by
    have ⟨an, ha, ea⟩ := before_edit he ha'
    have ⟨bn, hb, eb⟩ := before_edit he hb'
    exact h.distinct ha hb (ea.parent ▸ hap) (eb.parent ▸ hbp) (ea.name ▸ eb.name ▸ hname)
  names hn' hp := by
    have ⟨n, hn, e⟩ := before_edit he hn'
    exact e.name ▸ h.names hn (e.parent ▸ hp)
  stands hn' := by
    have ⟨n, hn, e⟩ := before_edit he hn'
    have ⟨ns, hs⟩ := h.stands hn
    refine ⟨ns, hs.transfer (Q := fun _ => True) trivial he.root (fun hn _ => ?_) fun _ _ hQ => hQ⟩
    have ⟨n', hn', e⟩ := after_edit he hn
    exact ⟨n', hn', e.name, e.parent⟩
  properties hn' hp := by
    have ⟨n, hn, e⟩ := before_edit he hn'
    exact (e.properties _ hp).elim (h.properties hn) fun hv => hv

theorem added (h : s.WellFormed) (ha : Added s s' id p name type) : s'.WellFormed := by
  obtain ⟨pn, hpn⟩ := ha.parent
  have new : s'.nodes[id]? = some (.new name (some p) type) := by simp [ha.nodes]
  have old {x : NodeId} {n : Node} (hn : s.nodes[x]? = some n) : x ≠ id := by
    rintro rfl
    exact absurd hn (by simp [ha.fresh])
  have after {x : NodeId} {n : Node} (hn : s.nodes[x]? = some n) : s'.nodes[x]? =
      some { n with children := n.children ++ if x = p then [id] else [] } := by
    simp [ha.nodes, old hn, hn]
  have before {x : NodeId} {n' : Node} (hn' : s'.nodes[x]? = some n') :
      x = id ∧ n' = .new name (some p) type ∨ ∃ n, s.nodes[x]? = some n ∧
        n' = { n with children := n.children ++ if x = p then [id] else [] } := by
    rw [ha.nodes] at hn'
    split at hn'
    case isTrue hx => exact .inl ⟨hx, (Option.some_inj.1 hn').symm⟩
    case isFalse => exact .inr ((Option.map_eq_some_iff.1 hn').imp fun _ hn => ⟨hn.1, hn.2.symm⟩)
  have stands {ns : List String} {x : NodeId} (hs : s.Stands ns x) : s'.Stands ns x :=
    hs.transfer (Q := fun _ => True) trivial ha.root (fun hn _ => ⟨_, after hn, rfl, rfl⟩)
      fun _ _ hQ => hQ
  have taken {x : NodeId} {n : Node} (hn : s.nodes[x]? = some n) (hp : n.parent = some p) :
      n.name ≠ name := fun hname => by
    have := (h.child_eq_some_iff hpn).2 ⟨n, hn, hp, hname⟩
    simp [ha.free] at this
  constructor
  case root =>
    obtain ⟨r, hr, hp⟩ := h.root
    have hr' := after hr
    rw [← ha.root] at hr'
    exact ⟨_, hr', hp⟩
  case orphan =>
    intro x n' hn' hp
    rcases before hn' with ⟨rfl, rfl⟩ | ⟨n, hn, rfl⟩
    · simp [Node.new] at hp
    · exact ha.root ▸ h.orphan hn hp
  case listed =>
    intro x q n' hn' hq
    rcases before hn' with ⟨rfl, rfl⟩ | ⟨n, hn, rfl⟩
    · obtain rfl := Option.some_inj.1 hq
      exact ⟨_, after hpn, by simp⟩
    · obtain ⟨qn, hqn, hc⟩ := h.listed hn hq
      exact ⟨_, after hqn, by simp [hc]⟩
  case child =>
    intro q x qn' hqn' hc
    rcases before hqn' with ⟨rfl, rfl⟩ | ⟨qn, hqn, rfl⟩
    · simp [Node.new] at hc
    · rcases List.mem_append.1 hc with hc | hc
      · obtain ⟨n, hn, hp⟩ := h.child hqn hc
        exact ⟨_, after hn, hp⟩
      · split at hc
        case isFalse => simp at hc
        case isTrue hqp =>
          obtain rfl := List.mem_singleton.1 hc
          exact ⟨_, new, hqp ▸ rfl⟩
  case nodup =>
    intro q qn' hqn'
    rcases before hqn' with ⟨rfl, rfl⟩ | ⟨qn, hqn, rfl⟩
    · simp [Node.new]
    · have : id ∉ qn.children := fun hc => by
        obtain ⟨n, hn, _⟩ := h.child hqn hc
        exact old hn rfl
      have := h.nodup hqn
      split <;> simp_all [List.nodup_append]
      rintro c hc rfl
      contradiction
  case distinct =>
    intro a b q an' bn' ha' hb' hap hbp hname
    rcases before ha' with ⟨rfl, rfl⟩ | ⟨an, han, rfl⟩ <;>
      rcases before hb' with ⟨rfl, rfl⟩ | ⟨bn, hb, rfl⟩
    · rfl
    · obtain rfl := Option.some_inj.1 hap
      exact absurd hname.symm (taken (n := bn) hb hbp)
    · obtain rfl := Option.some_inj.1 hbp
      exact absurd hname (taken (n := an) han hap)
    · exact h.distinct han hb hap hbp hname
  case names =>
    intro x q n' hn' hq
    rcases before hn' with ⟨rfl, rfl⟩ | ⟨n, hn, rfl⟩
    · exact ha.valid
    · exact h.names (n := n) hn hq
  case stands =>
    intro x n' hn'
    rcases before hn' with ⟨rfl, rfl⟩ | ⟨n, hn, rfl⟩
    · obtain ⟨ns, hs⟩ := h.stands hpn
      exact ⟨_, .child (stands hs) rfl new⟩
    · exact (h.stands hn).imp fun _ => stands
  case properties =>
    intro x n' m hn' hm
    rcases before hn' with ⟨rfl, rfl⟩ | ⟨n, hn, rfl⟩
    · simp [Node.new] at hm
    · exact h.properties hn hm

-- What goes with a node is the node and what has a parent that goes.

theorem isWithin_of_parent {x q : NodeId} {n : Node} (h : s.WellFormed)
    (hn : s.nodes[x]? = some n) (hq : n.parent = some q) :
    s.isWithin id x ↔ x = id ∨ s.isWithin id q := by
  have ⟨qn, hqn, _⟩ := h.listed hn hq
  have ⟨ns, hs⟩ := h.stands hqn
  have hx : s.Stands (ns ++ [n.name]) x := .child hs hq hn
  rw [h.isWithin_iff hx, h.isWithin_iff hs]
  simp only [List.prefix_concat_iff, or_and_right, exists_or, exists_eq_left]
  exact or_congr_left ⟨fun hid => h.stands_inj hx hid, fun hid => hid ▸ hx⟩

theorem not_isWithin_root {n : Node} (h : s.WellFormed) (hn : s.nodes[id]? = some n)
    (hp : n.parent = some p) : ¬s.isWithin id s.root := by
  rw [h.isWithin_iff .root]
  rintro ⟨ms, hm, hs⟩
  obtain rfl := List.prefix_nil.1 hm
  have ⟨r, hr, hrp⟩ := h.root
  simp_all [stands_nil_iff.1 hs]

theorem not_isWithin_parent {n : Node} (h : s.WellFormed) (hn : s.nodes[id]? = some n)
    (hp : n.parent = some p) : ¬s.isWithin id p := by
  have ⟨pn, hpn, _⟩ := h.listed hn hp
  have ⟨ns, hs⟩ := h.stands hpn
  rw [h.isWithin_iff hs]
  rintro ⟨ms, hm, hms⟩
  have := h.stands_unique hms (.child hs hp hn)
  exact absurd (this ▸ hm).length_le (by simp)

theorem isWithin_self {n : Node} (h : s.WellFormed) (hn : s.nodes[id]? = some n) :
    s.isWithin id id := by
  have ⟨ns, hs⟩ := h.stands hn
  exact (h.isWithin_iff hs).2 ⟨ns, List.prefix_refl _, hs⟩

theorem removed (h : s.WellFormed) (hr : Removed s s' id p) : s'.WellFormed := by
  have ⟨m, hm, hmp⟩ := hr.node
  have after {x : NodeId} {n : Node} (hn : s.nodes[x]? = some n) (hx : ¬s.isWithin id x) :
      s'.nodes[x]? = some
        { n with children := if x = p then n.children.filter (· ≠ id) else n.children } := by
    simp [hr.nodes, hn, hx]
  have before {x : NodeId} {n' : Node} (hn' : s'.nodes[x]? = some n') :
      ¬s.isWithin id x ∧ ∃ n, s.nodes[x]? = some n ∧
        n' = { n with children := if x = p then n.children.filter (· ≠ id) else n.children } := by
    rw [hr.nodes] at hn'
    split at hn'
    case isTrue => simp at hn'
    case isFalse hx =>
      exact ⟨hx, (Option.map_eq_some_iff.1 hn').imp fun _ hn => ⟨hn.1, hn.2.symm⟩⟩
  have up {x q : NodeId} {n : Node} (hn : s.nodes[x]? = some n) (hq : n.parent = some q)
      (hx : ¬s.isWithin id x) : ¬s.isWithin id q :=
    fun hw => hx ((h.isWithin_of_parent hn hq).2 (.inr hw))
  constructor
  case root =>
    have ⟨r, hrn, hp⟩ := h.root
    have hrn' := after hrn (h.not_isWithin_root hm hmp)
    rw [← hr.root] at hrn'
    exact ⟨_, hrn', hp⟩
  case orphan =>
    intro x n' hn' hp
    obtain ⟨_, n, hn, rfl⟩ := before hn'
    exact hr.root ▸ h.orphan hn hp
  case listed =>
    intro x q n' hn' hq
    obtain ⟨hx, n, hn, rfl⟩ := before hn'
    have ⟨qn, hqn, hc⟩ := h.listed hn hq
    refine ⟨_, after hqn (up hn hq hx), ?_⟩
    have : x ≠ id := by
      rintro rfl
      exact hx (h.isWithin_self hm)
    dsimp only
    split <;> simp [hc, this]
  case child =>
    intro q x qn' hqn' hc
    obtain ⟨hq, qn, hqn, rfl⟩ := before hqn'
    have hcq : x ∈ qn.children := by
      dsimp only at hc
      split at hc
      · exact (List.mem_filter.1 hc).1
      · exact hc
    have ⟨n, hn, hp⟩ := h.child hqn hcq
    refine ⟨_, after hn fun hw => ?_, hp⟩
    rcases (h.isWithin_of_parent hn hp).1 hw with rfl | hw
    · obtain rfl := Option.some_inj.1 (hm.symm.trans hn)
      obtain rfl := Option.some_inj.1 (hmp.symm.trans hp)
      simp at hc
    · exact hq hw
  case nodup =>
    intro q qn' hqn'
    obtain ⟨_, qn, hqn, rfl⟩ := before hqn'
    dsimp only
    split
    · exact (h.nodup hqn).filter _
    · exact h.nodup hqn
  case distinct =>
    intro a b q an' bn' ha' hb' hap hbp hname
    obtain ⟨_, an, ha, rfl⟩ := before ha'
    obtain ⟨_, bn, hb, rfl⟩ := before hb'
    exact h.distinct ha hb hap hbp hname
  case names =>
    intro x q n' hn' hq
    obtain ⟨_, n, hn, rfl⟩ := before hn'
    exact h.names (n := n) hn hq
  case stands =>
    intro x n' hn'
    obtain ⟨hx, n, hn, rfl⟩ := before hn'
    have ⟨ns, hs⟩ := h.stands hn
    exact ⟨ns, hs.transfer (Q := fun x => ¬s.isWithin id x) hx hr.root
      (fun hn hx => ⟨_, after hn hx, rfl, rfl⟩) up⟩
  case properties =>
    intro x n' name hn' hm
    obtain ⟨_, n, hn, rfl⟩ := before hn'
    exact h.properties hn hm

theorem written (h : s.WellFormed) (hw : Written s s' id) : s'.WellFormed := by
  cases hw
  case added ha   => exact h.added ha
  case removed hr => exact h.removed hr
  case edited he  => exact h.edited he

end WellFormed

end Store

end PolicyTree
