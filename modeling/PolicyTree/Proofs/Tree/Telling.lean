import Mathlib.Data.String.Basic
import PolicyTree.Proofs.Tree.Changes
import PolicyTree.Proofs.Tree.Histories

namespace PolicyTree

-- The value of a property. The mixins make up one, if there are any.
def Node.property? (n : Node) (name : String) : Option Value :=
  if name = Store.mixinProperty then
    if n.mixins = [] then none else some (.names n.mixins)
  else n.properties[name]?

namespace Store

def property? (s : Store) (id : NodeId) (name : String) : Option Value :=
  s.nodes[id]?.bind (·.property? name)

-- What becomes of a property that does not stay as it is.
inductive Alters : Option Value → Option Value → EventKind → Prop
  | added (v : Value) : Alters none (some v) .propertyAdded
  | changed {v w : Value} (h : v ≠ w) : Alters (some v) (some w) .propertyChanged
  | removed (v : Value) : Alters (some v) none .propertyRemoved

-- An event that tells of a node as it stands in a tree.
structure TellsNode (s : Store) (t : NodeTypes) (kind : EventKind) (e : Event) : Prop where
  kind  : e.kind = kind
  path  : s.pathOf? e.node = some e.path
  types : ∃ p, s.IsParent p e.node ∧ e.parentTypes = s.effectiveTypes t p

-- An event that tells of a property, at a node that is still there.
inductive TellsProperty (base next : Store) (t : NodeTypes) : Event → Prop
  | property {id : NodeId} {path name : String} {kind : EventKind}
    (place : next.pathOf? id = some path)
    (alters : Alters (base.property? id name) (next.property? id name) kind) :
    TellsProperty base next t ⟨kind, Path.join path name, id, next.effectiveTypes t id⟩

variable {base next s other : Store} {t : NodeTypes} {id : NodeId} {b n : Node} {e e' : Event}
  {kind : EventKind} {name : String} {v w : Option Value}

-- Nodes that one tree has and the other lacks.

theorem nodes_lacking (h : s.WellFormed) (root : s.root ∈ other.nodes) :
    (lacking kind s other t).map (·.node) = s.nodes.keys.filter (· ∉ other.nodes) := by
  rw [lacking, List.map_filterMap, ← Std.ExtTreeMap.map_fst_toList_eq_keys, List.filter_map,
    ← List.filterMap_eq_map, List.filterMap_filter]
  refine List.filterMap_congr fun ⟨id, n⟩ hn => ?_
  rw [Std.ExtTreeMap.mem_toList_iff_getElem?_eq_some] at hn
  by_cases there : id ∈ other.nodes
  case pos => simp [there]
  case neg =>
    have ⟨ns, hs⟩ := h.stands hn
    cases hp : n.parent
    case none   => exact absurd (h.orphan hn hp ▸ root) there
    case some p => simp [there, hp, h.pathOf_eq hs]

theorem tellsNode_of_mem (he : e ∈ lacking kind s other t) :
    s.TellsNode t kind e ∧ e.node ∉ other.nodes := by
  have ⟨⟨id, n⟩, hn, he⟩ := List.mem_filterMap.1 he
  rw [Std.ExtTreeMap.mem_toList_iff_getElem?_eq_some] at hn
  by_cases there : id ∈ other.nodes
  case pos => simp [there] at he
  case neg =>
    simp only [there, if_false, Option.bind_eq_bind, Option.bind_eq_some_iff] at he
    have ⟨path, hpath, p, hp, he⟩ := he
    obtain rfl := Option.some_inj.1 he
    exact ⟨⟨rfl, hpath, p, ⟨n, hn, hp⟩, rfl⟩, there⟩

-- Properties.

theorem propertyChange_eq_some_iff : propertyChange? v w = some kind ↔ Alters v w kind := by
  constructor
  case mpr =>
    intro ha
    cases ha
    case added     => rfl
    case changed h => simp [propertyChange?, h]
    case removed   => rfl
  case mp =>
    intro hc
    cases v <;> cases w
    case none.none => simp [propertyChange?] at hc
    case none.some => exact Option.some_inj.1 hc ▸ .added _
    case some.none => exact Option.some_inj.1 hc ▸ .removed _
    case some.some v w =>
      by_cases hvw : v = w
      case pos => simp [propertyChange?, hvw] at hc
      case neg =>
        simp only [propertyChange?, hvw, if_false, Option.some_inj] at hc
        exact hc ▸ .changed hvw

theorem mixinChange_eq_some_iff : mixinChange? b.mixins n.mixins = some kind ↔
    Alters (b.property? mixinProperty) (n.property? mixinProperty) kind := by
  rw [← propertyChange_eq_some_iff]
  simp only [Node.property?, if_true, mixinChange?]
  cases b.mixins <;> cases n.mixins <;> simp [propertyChange?]

theorem mem_changedProperties_iff (hb : mixinProperty ∉ b.properties)
    (hn : mixinProperty ∉ n.properties) : (kind, name) ∈ changedProperties b n ↔
      Alters (b.property? name) (n.property? name) kind := by
  by_cases hm : name = mixinProperty
  case pos =>
    subst hm
    simp [changedProperties, ← mixinChange_eq_some_iff, hb, hn]
  case neg =>
    rw [← propertyChange_eq_some_iff]
    simp only [Node.property?, if_neg hm]
    have there (hc : propertyChange? b.properties[name]? n.properties[name]? = some kind) :
        name ∈ n.properties ∨ name ∈ b.properties := by
      by_contra hn
      simp only [not_or] at hn
      simp [Std.ExtTreeMap.getElem?_eq_none hn.1, Std.ExtTreeMap.getElem?_eq_none hn.2,
        propertyChange?] at hc
    simp only [changedProperties, List.mem_append, Option.mem_toList, Option.map_eq_some_iff,
      Prod.mk.injEq, Ne.symm hm, and_false, exists_false, false_or, List.mem_filterMap,
      List.mem_filter, Std.ExtTreeMap.mem_keys]
    constructor
    case mp =>
      intro hc
      obtain ⟨_, _, _, hc, rfl, rfl⟩ := hc
      exact hc
    case mpr =>
      intro hc
      refine ⟨name, ?_, kind, hc, rfl, rfl⟩
      by_cases hn : name ∈ n.properties
      case pos => exact .inl hn
      case neg => exact .inr ⟨(there hc).resolve_left hn, by simpa using hn⟩

-- No name is told of twice.
theorem changedProperties_names (hb : mixinProperty ∉ b.properties)
    (hn : mixinProperty ∉ n.properties) :
    (changedProperties b n).Pairwise fun x y => x.2 ≠ y.2 := by
  have keys : (n.properties.keys ++ b.properties.keys.filter (· ∉ n.properties)).Nodup := by
    refine List.nodup_append.2 ⟨Std.ExtTreeMap.nodup_keys, Std.ExtTreeMap.nodup_keys.filter _, ?_⟩
    intro x hx y hy
    rintro rfl
    simp_all
  refine List.pairwise_append.2 ⟨?_, List.pairwise_filterMap.2 (keys.imp ?_), ?_⟩
  · cases mixinChange? b.mixins n.mixins <;> simp
  · intro x y hne z hz w hw
    have ⟨_, _, hz⟩ := Option.map_eq_some_iff.1 hz
    have ⟨_, _, hw⟩ := Option.map_eq_some_iff.1 hw
    exact hz ▸ hw ▸ hne
  · intro x hx y hy hxy
    simp only [Option.mem_toList, Option.map_eq_some_iff, List.mem_filterMap, List.mem_append,
      List.mem_filter, Std.ExtTreeMap.mem_keys] at hx hy
    have ⟨_, _, hx⟩ := hx
    have ⟨name, there, _, _, hy⟩ := hy
    have : name = mixinProperty := by rw [← hx, ← hy] at hxy; exact hxy.symm
    exact there.elim (fun hc => hn (this ▸ hc)) fun hc => hb (this ▸ hc.1)

-- A node as it was before, with nothing if it was not there.
theorem before_unmixed (h : base.WellFormed) :
    mixinProperty ∉ (base.nodes[id]?.getD (.new n.name n.parent n.primaryType)).properties := by
  cases hb : base.nodes[id]?
  case some b => exact fun hm => (h.properties hb hm).not_mixin rfl
  case none   => simp [Node.new]

theorem mem_changed_iff (h : base.WellFormed) (h' : next.WellFormed)
    (hn : next.nodes[id]? = some n) :
    (kind, name) ∈ changedProperties (base.nodes[id]?.getD (.new n.name n.parent n.primaryType)) n ↔
      Alters (base.property? id name) (next.property? id name) kind := by
  have unmixed : mixinProperty ∉ n.properties := fun hm => (h'.properties hn hm).not_mixin rfl
  rw [mem_changedProperties_iff (before_unmixed h) unmixed]
  have was : (base.nodes[id]?.getD (.new n.name n.parent n.primaryType)).property? name =
      base.property? id name := by
    cases hb : base.nodes[id]?
    case some b => simp [property?, hb]
    case none   => simp [property?, hb, Node.property?, Node.new]
  have now : next.property? id name = n.property? name := by simp [property?, hn]
  rw [was, now]

def eventsAt (base next : Store) (t : NodeTypes) (id : NodeId) (n : Node) : List Event :=
  match next.pathOf? id with
  | none => []
  | some path =>
    (changedProperties (base.nodes[id]?.getD (.new n.name n.parent n.primaryType)) n).map
      fun (kind, name) => ⟨kind, Path.join path name, id, next.effectiveTypes t id⟩

theorem propertyEvents_eq :
    propertyEvents base next t = next.nodes.toList.flatMap fun x => eventsAt base next t x.1 x.2 :=
  rfl

theorem mem_eventsAt_iff (h : base.WellFormed) (h' : next.WellFormed)
    (hn : next.nodes[id]? = some n) :
    e ∈ eventsAt base next t id n ↔ TellsProperty base next t e ∧ e.node = id := by
  have ⟨ns, hs⟩ := h'.stands hn
  have place := h'.pathOf_eq hs
  simp only [eventsAt, place, List.mem_map, Prod.exists]
  constructor
  case mp =>
    intro he
    have ⟨kind, name, hc, he⟩ := he
    exact he ▸ ⟨.property place ((mem_changed_iff h h' hn).1 hc), rfl⟩
  case mpr =>
    intro he
    have ⟨tells, here⟩ := he
    cases tells
    case property path name kind place' alters =>
      subst here
      obtain rfl := Option.some_inj.1 (place'.symm.trans place)
      exact ⟨kind, name, (mem_changed_iff h h' hn).2 alters, rfl⟩

theorem mem_propertyEvents_iff (h : base.WellFormed) (h' : next.WellFormed) :
    e ∈ propertyEvents base next t ↔ TellsProperty base next t e := by
  rw [propertyEvents_eq, List.mem_flatMap]
  constructor
  case mp =>
    intro he
    have ⟨x, hx, he⟩ := he
    exact ((mem_eventsAt_iff h h' (Std.ExtTreeMap.mem_toList_iff_getElem?_eq_some.1 hx)).1 he).1
  case mpr =>
    intro tells
    have ⟨n, hn⟩ : ∃ n, next.nodes[e.node]? = some n := by
      cases tells
      case property place _ => exact h'.pathOf_isSome_iff.1 ⟨_, place⟩
    exact ⟨(e.node, n), Std.ExtTreeMap.mem_toList_iff_getElem?_eq_some.2 hn,
      (mem_eventsAt_iff h h' hn).2 ⟨tells, rfl⟩⟩

theorem isSegment_of_alters (h : base.WellFormed) (h' : next.WellFormed)
    (ha : Alters (base.property? id name) (next.property? id name) kind) :
    Path.IsSegment name := by
  have named {s : Store} (h : s.WellFormed) {v : Value} (hv : s.property? id name = some v) :
      Path.IsSegment name := by
    have ⟨n, hn, hv⟩ := Option.bind_eq_some_iff.1 hv
    unfold Node.property? at hv
    split at hv
    case isTrue hm  => exact hm ▸ isSegment_mixinProperty
    case isFalse hm =>
      have : name ∈ n.properties := Std.ExtTreeMap.mem_iff_isSome_getElem?.2 (by simp [hv])
      exact Path.isSegment_of_validateName (h.properties hn this).valid
  generalize hv : base.property? id name = v at ha
  generalize hw : next.property? id name = w at ha
  cases ha
  case added   => exact named h' hw
  case changed => exact named h' hw
  case removed => exact named h hv

theorem WellFormed.join_inj {path path' name' : String} {id' : NodeId} (h : s.WellFormed)
    (place : s.pathOf? id = some path) (place' : s.pathOf? id' = some path')
    (hn : Path.IsSegment name) (hn' : Path.IsSegment name')
    (he : Path.join path name = Path.join path' name') : id = id' ∧ name = name' := by
  have ⟨ns, hs, hns⟩ := h.stands_of_pathOf place
  have ⟨ms, hs', hms⟩ := h.stands_of_pathOf place'
  have segments := h.isSegment_of_stands hs
  have segments' := h.isSegment_of_stands hs'
  rw [hns, hms, Path.join_ofNames segments, Path.join_ofNames segments'] at he
  have same := Path.ofNames_injective (by simpa [or_imp, forall_and] using ⟨segments, hn⟩)
    (by simpa [or_imp, forall_and] using ⟨segments', hn'⟩) he
  have ⟨same, name⟩ := List.append_inj' same rfl
  exact ⟨h.stands_inj hs (same ▸ hs'), by simpa using name⟩

-- Events with the same path are of the same node.
theorem TellsProperty.node_eq (h : base.WellFormed) (h' : next.WellFormed)
    (he : TellsProperty base next t e) (he' : TellsProperty base next t e')
    (path : e.path = e'.path) : e.node = e'.node := by
  cases he
  case property place alters =>
    cases he'
    case property place' alters' =>
      exact (h'.join_inj place place' (isSegment_of_alters h h' alters)
        (isSegment_of_alters h h' alters') path).1

theorem property_paths_ne (h : base.WellFormed) (h' : next.WellFormed) :
    (propertyEvents base next t).Pairwise fun a b => a.path ≠ b.path := by
  refine List.pairwise_flatMap.2 ⟨fun ⟨id, n⟩ hn => ?_, ?_⟩
  · rw [Std.ExtTreeMap.mem_toList_iff_getElem?_eq_some] at hn
    have ⟨ns, hs⟩ := h'.stands hn
    have place := h'.pathOf_eq hs
    have unmixed : mixinProperty ∉ n.properties := fun hm => (h'.properties hn hm).not_mixin rfl
    have names := changedProperties_names
      (b := base.nodes[id]?.getD (.new n.name n.parent n.primaryType)) (before_unmixed h) unmixed
    simp only [place]
    refine List.pairwise_map.2 (names.imp_of_mem fun {c d} hc hd hne he => hne ?_)
    exact (h'.join_inj place place (isSegment_of_alters h h' ((mem_changed_iff h h' hn).1 hc))
      (isSegment_of_alters h h' ((mem_changed_iff h h' hn).1 hd)) he).2
  · refine Std.ExtTreeMap.distinct_keys_toList.imp_of_mem fun {x y} hx hy hne a ha b hb path => ?_
    rw [Std.ExtTreeMap.mem_toList_iff_getElem?_eq_some] at hx hy
    have ⟨tells, hax⟩ := (mem_eventsAt_iff h h' hx).1 ha
    have ⟨tells', hby⟩ := (mem_eventsAt_iff h h' hy).1 hb
    have : x.1 = y.1 := hax ▸ hby ▸ tells.node_eq h h' tells' path
    exact hne (Std.LawfulEqOrd.compare_eq_iff_eq.2 this)

-- One event for each node that one tree has and the other lacks.
structure TellsLacking (kind : EventKind) (s other : Store) (t : NodeTypes) (events : List Event) :
    Prop where
  nodes : (events.map (·.node)).Perm (s.nodes.keys.filter (· ∉ other.nodes))
  tells : ∀ e ∈ events, s.TellsNode t kind e

theorem TellsLacking.of_perm {events : List Event} (h : s.WellFormed)
    (root : s.root ∈ other.nodes) (p : events.Perm (lacking kind s other t)) :
    TellsLacking kind s other t events where
  nodes      := nodes_lacking h root ▸ p.map _
  tells _ he := (tellsNode_of_mem (p.mem_iff.1 he)).1

theorem TellsLacking.paths_ne {events : List Event} (h : s.WellFormed)
    (ht : TellsLacking kind s other t events) : events.Pairwise fun a b => a.path ≠ b.path := by
  have nodup := ht.nodes.nodup_iff.2 (Std.ExtTreeMap.nodup_keys.filter _)
  refine (List.pairwise_map.1 nodup).imp_of_mem fun {a b} ha hb hne hpath => hne ?_
  have ⟨ns, hs, hns⟩ := h.stands_of_pathOf (ht.tells a ha).path
  have ⟨ms, hs', hms⟩ := h.stands_of_pathOf (ht.tells b hb).path
  have := Path.ofNames_injective (h.isSegment_of_stands hs) (h.isSegment_of_stands hs')
    (hns.symm.trans (hpath.trans hms))
  exact h.stands_inj hs (this ▸ hs')

-- A node stands deeper than its parent.
theorem TellsNode.depth_lt (h : s.WellFormed) (he : s.TellsNode t kind e)
    (he' : s.TellsNode t kind e') (parent : s.IsParent e.node e'.node) :
    Path.depth e.path < Path.depth e'.path := by
  have ⟨n, hn, hp⟩ := parent
  have ⟨ns, hs, hns⟩ := h.stands_of_pathOf he.path
  have hs' : s.Stands (ns ++ [n.name]) e'.node := .child hs hp hn
  have path' : e'.path = _ := Option.some_inj.1 (he'.path.symm.trans (h.pathOf_eq hs'))
  rw [hns, path', Path.depth_ofNames (h.isSegment_of_stands hs),
    Path.depth_ofNames (h.isSegment_of_stands hs')]
  simp

structure Told (base next : Store) (t : NodeTypes) (removed added changed : List Event) : Prop where
  nodesRemoved : TellsLacking .nodeRemoved base next t removed
  nodesAdded   : TellsLacking .nodeAdded next base t added
  properties   : ∀ e, e ∈ changed ↔ TellsProperty base next t e
  removedOrder : removed.Pairwise fun a b => a.path < b.path
  addedOrder   : added.Pairwise fun a b => Path.depth a.path < Path.depth b.path ∨
    Path.depth a.path = Path.depth b.path ∧ a.path < b.path
  changedOrder : changed.Pairwise fun a b => a.path < b.path
  parentsFirst : added.Pairwise fun a b => ¬next.IsParent b.node a.node

theorem changes_tell_all (h : base.Reachable) (turns : base.Turns next) (t : NodeTypes) :
    (∃ removed added changed, changes base next t = removed ++ added ++ changed ∧
      Told base next t removed added changed) ∧
    -- In whatever order the nodes and their properties are looked at.
    ∀ removed added changed : List Event, removed.Perm (removals base next t) →
      added.Perm (additions base next t) → changed.Perm (propertyEvents base next t) →
      sortOn (·.path) removed ++ sortOn (Path.depth ·.path) (sortOn (·.path) added) ++
        sortOn (·.path) changed = changes base next t := by
  have wf := h.wellFormed
  have wf' := wf.turns turns
  have root : base.root ∈ next.nodes := turns.root_eq ▸ wf'.root_mem
  have root' : next.root ∈ base.nodes := turns.root_eq ▸ wf.root_mem
  have gone : TellsLacking .nodeRemoved base next t (removals base next t) :=
    .of_perm wf root (.refl _)
  have came : TellsLacking .nodeAdded next base t (additions base next t) :=
    .of_perm wf' root' (.refl _)
  refine ⟨⟨_, _, _, rfl, ?_⟩, fun removed added changed hr ha hc => ?_⟩
  case refine_2 =>
    rw [sortOn_congr (gone.paths_ne wf) hr, sortOn_congr (came.paths_ne wf') ha,
      sortOn_congr (property_paths_ne wf wf') hc]
    rfl
  have added : TellsLacking .nodeAdded next base t
      (sortOn (Path.depth ·.path) (sortOn (·.path) (additions base next t))) :=
    .of_perm wf' root' ((sortOn_perm _ _).trans (sortOn_perm _ _))
  have addedOrder : (sortOn (Path.depth ·.path) (sortOn (·.path) (additions base next t))).Pairwise
      fun a b => Path.depth a.path < Path.depth b.path ∨
        Path.depth a.path = Path.depth b.path ∧ a.path < b.path := by
    refine (sortOn_stable (sortOn_strict (came.paths_ne wf'))).imp fun hab => ?_
    cases hab
    case inl lt => exact .inl (compare_lt_iff_lt.1 lt)
    case inr eq => exact .inr ⟨compare_eq_iff_eq.1 eq.1, compare_lt_iff_lt.1 eq.2⟩
  exact {
    nodesRemoved := .of_perm wf root (sortOn_perm _ _)
    nodesAdded   := added
    properties   := fun e => mem_sortOn.trans (mem_propertyEvents_iff wf wf')
    removedOrder := (sortOn_strict (gone.paths_ne wf)).imp compare_lt_iff_lt.1
    addedOrder   := addedOrder
    changedOrder := (sortOn_strict (property_paths_ne wf wf')).imp compare_lt_iff_lt.1
    parentsFirst := addedOrder.imp_of_mem fun {a b} ha hb hab parent => by
      have := (added.tells b hb).depth_lt wf' (added.tells a ha) parent
      omega }

-- A node that is made anew where one was removed is another one, and its properties are all new.
def renewable : Store := (initial ⟨0⟩ "rep:root").afterAll [
  ⟨.addNode ⟨⟨0⟩, "/"⟩ "a" "nt:unstructured", ⟨1⟩⟩,
  ⟨.addNode ⟨⟨1⟩, "/a"⟩ "b" "nt:unstructured", ⟨2⟩⟩,
  ⟨.setProperty ⟨⟨1⟩, "/a"⟩ "title" (.string "old"), ⟨3⟩⟩,
  ⟨.setProperty ⟨⟨0⟩, "/"⟩ "title" (.string "old"), ⟨3⟩⟩]

def renewed : Store := renewable.afterAll [
  ⟨.removeNode ⟨⟨1⟩, "/a"⟩, ⟨3⟩⟩,
  ⟨.addNode ⟨⟨0⟩, "/"⟩ "a" "nt:unstructured", ⟨3⟩⟩,
  ⟨.setProperty ⟨⟨3⟩, "/a"⟩ "title" (.string "old"), ⟨4⟩⟩,
  ⟨.addMixin ⟨⟨3⟩, "/a"⟩ "mix:title", ⟨4⟩⟩,
  ⟨.removeProperty ⟨⟨0⟩, "/"⟩ "title", ⟨4⟩⟩]

theorem renewed_is_told : renewable.Reachable ∧ renewable.Turns renewed ∧
    (changes renewable renewed .initial).map (fun e => (e.kind, e.path, e.node.value)) = [
      (.nodeRemoved, "/a", 1), (.nodeRemoved, "/a/b", 2), (.nodeAdded, "/a", 3),
      (.propertyAdded, "/a/jcr:mixinTypes", 3), (.propertyAdded, "/a/title", 3),
      (.propertyRemoved, "/title", 0)] ∧
    ∃ removed added changed, changes renewable renewed .initial = removed ++ added ++ changed ∧
      Told renewable renewed .initial removed added changed := by
  have h : renewable.Reachable := reachable_afterAll (by decide +kernel)
  have turns : renewable.Turns renewed := turns_afterAll (by decide +kernel)
  exact ⟨h, turns, by decide +kernel, (changes_tell_all h turns .initial).1⟩

end Store

end PolicyTree
