import Mathlib.Tactic.Common
import PolicyTree.Proofs.Policy.Placement

namespace PolicyTree

namespace Store

open Policy

variable {base s s' : Store} {id p x : NodeId} {b n n' : Node} {name type : String}

-- Policies stand in their places, and nothing else below another node goes by the name of one.
structure Tidy (s : Store) : Prop where
  inPlace : s.InPlace
  named   : ∀ {x p : NodeId} {n : Node}, s.nodes[x]? = some n → n.parent = some p →
    n.name = nodeName → s.IsList x

theorem Tidy.initial (h : type ∉ contentTypes) : (Store.initial id type).Tidy := by
  refine ⟨.initial h, fun {x p n} hn hp _ => ?_⟩
  simp only [Store.initial, Std.ExtTreeMap.getElem?_insert] at hn
  split at hn
  case isFalse => simp at hn
  case isTrue  => simp [← Option.some_inj.1 hn, Node.new] at hp

-- What is found under the name of a policy is no entry.
theorem InPlace.not_entry_of_child (h : s.InPlace) (wf : s.WellFormed)
    (hc : s.child? p nodeName = some x) : ¬s.IsEntry x := by
  cases hp : s.nodes[p]?
  case none    => simp [child?, hp] at hc
  case some pn =>
    obtain ⟨n, hn, _, hname⟩ := (wf.child_eq_some_iff hp).1 hc
    exact fun he => ((h.placed hn).entry he).1 hname

-- What there was of policies is as it was, as long as it is there: entries have what they had, and
-- policies the entries that they had.
structure Revised (base next : Store) : Prop where
  tidy    : next.Tidy
  content : ∀ {x : NodeId} {b n : Node}, base.nodes[x]? = some b → next.nodes[x]? = some n →
    next.IsEntry x → n.mixins = b.mixins ∧ n.properties = b.properties
  ungrown : ∀ {p x : NodeId}, next.IsParent p x → next.IsList p → p ∈ base.nodes → x ∈ base.nodes
  unshorn : ∀ {p x : NodeId}, base.IsParent p x → base.IsEntry x → p ∈ next.nodes → x ∈ next.nodes

-- One write to a tree that leaves policies of an earlier one as they are, or takes them as wholes.
inductive Revises (base s s' : Store) : Prop
  | add {id p : NodeId} {name type : String} (h : Added s s' id p name type)
    (fresh : id ∉ base.nodes) (fits : s.Fits p name type)
    (named : name = nodeName → type = listType) (below : s.IsList p → p ∉ base.nodes)
  | edit {id : NodeId} {edit : Node → Node} (h : Edited s s' id edit)
    (plain : ∀ n, s.nodes[id]? = some n → ∀ t ∈ contentTypes, t ∈ (edit n).types → t ∈ n.types)
    (entry : s.IsEntry id → id ∉ base.nodes)
  | remove {id p : NodeId} (h : Removed s s' id p) (whole : ¬s.IsEntry id)

theorem Added.mem_of_mem (h : Added s s' id p name type) (hx : x ∈ s.nodes) : x ∈ s'.nodes := by
  have ⟨n, hn⟩ := mem_nodes_iff.1 hx
  by_cases hid : x = id
  case pos => exact mem_nodes_iff.2 ⟨_, by rw [h.nodes, if_pos hid]⟩
  case neg => exact mem_nodes_iff.2 ⟨_, by rw [h.nodes, if_neg hid, hn, Option.map_some]⟩

theorem Edited.mem_of_mem {edit : Node → Node} (h : Edited s s' id edit) (hx : x ∈ s.nodes) :
    x ∈ s'.nodes := by
  have ⟨n, hn⟩ := mem_nodes_iff.1 hx
  exact mem_nodes_iff.2 ((WellFormed.after_edit h hn).imp fun _ hn => hn.1)

theorem IsList.mem (h : s.IsList x) : x ∈ s.nodes :=
  mem_nodes_iff.2 (exists_of_mem_effectiveTypes h)

theorem Follows.isList (f : Follows s s') (hl : s.IsList x) (hx : x ∈ s'.nodes) : s'.IsList x := by
  have ⟨_, hn⟩ := exists_of_mem_effectiveTypes hl
  have ⟨_, hn'⟩ := mem_nodes_iff.1 hx
  exact f.mem_effectiveTypes hn hn' hl

theorem Added.isList (wf : s.WellFormed) (h : Added s s' id p name type) (hl : s.IsList x) :
    s'.IsList x :=
  (Follows.written wf (.added h : Written s s' id)).isList hl (h.mem_of_mem (IsList.mem hl))

theorem Edited.isList {edit : Node → Node} (wf : s.WellFormed) (h : Edited s s' id edit)
    (hl : s.IsList x) : s'.IsList x :=
  (Follows.written wf (.edited h : Written s s' id)).isList hl (h.mem_of_mem (IsList.mem hl))

theorem Follows.isParent (f : Follows s s') (hp : s'.IsParent p x) (hx : x ∈ s.nodes) :
    s.IsParent p x := by
  have ⟨n', hn', hp⟩ := hp
  have ⟨n, hn⟩ := mem_nodes_iff.1 hx
  exact ⟨n, hn, (f.node hn hn').2.1 ▸ hp⟩

namespace Revises

variable (h : Revises base s s')

include h

theorem follows (wf : s.WellFormed) : Follows s s' := by
  cases h
  case add id _ _ _ h _ _ _ _ => exact .written wf (.added h : Written s s' id)
  case edit h _ _             => exact .written wf (.edited h : Written s s' s.root)
  case remove h _             => exact .written wf (.removed h : Written s s' s.root)

theorem kinds : KeepsKinds s s' := by
  cases h
  case add h _ _ _ _    => exact .added h
  case edit h plain _   => exact .edited h plain
  case remove h _       => exact .removed h

theorem inPlace (wf : s.WellFormed) (placed : s.InPlace) : s'.InPlace := by
  cases h
  case add h _ fits _ _ => exact placed.added wf h fits
  case edit h plain _   => exact placed.edited wf h (.edited h plain)
  case remove h _       => exact placed.removed wf h

theorem mem_of_old (hx : x ∈ base.nodes) (hx' : x ∈ s'.nodes) : x ∈ s.nodes := by
  cases h
  case add h fresh _ _ _ => exact (h.mem hx').resolve_right fun hid => fresh (hid ▸ hx)
  case edit h _ _        => exact h.mem hx'
  case remove h _        => exact h.mem hx'

-- A node that comes is a policy if it goes by the name of one, and it comes below no old one.
theorem of_new (hx : x ∉ s.nodes) (hn : s'.nodes[x]? = some n) :
    (n.name = nodeName → s'.IsList x) ∧
      ∀ p, n.parent = some p → p ∈ s.nodes ∧ (s.IsList p → p ∉ base.nodes) := by
  cases h
  case edit h _ _ => exact absurd (h.mem (mem_nodes_iff.2 ⟨n, hn⟩)) hx
  case remove h _ => exact absurd (h.mem (mem_nodes_iff.2 ⟨n, hn⟩)) hx
  case add id p name type h _ _ named below =>
    obtain rfl := (h.mem (mem_nodes_iff.2 ⟨n, hn⟩)).resolve_left hx
    have new : n = .new name (some p) type := by simpa [h.nodes, eq_comm] using hn
    subst new
    refine ⟨fun hname => (isList_iff hn).2 ?_, fun q hq => ?_⟩
    · exact List.mem_cons.2 (.inl (named hname).symm)
    · obtain rfl := Option.some_inj.1 hq
      exact ⟨mem_nodes_iff.2 h.parent, below⟩

-- Old entries are not edited.
theorem of_old_entry (hx : x ∈ base.nodes) (hn : s.nodes[x]? = some n)
    (hn' : s'.nodes[x]? = some n') (he : s.IsEntry x) :
    n'.mixins = n.mixins ∧ n'.properties = n.properties := by
  cases h
  case add id _ _ _ h fresh _ _ _ =>
    have : x ≠ id := fun hid => fresh (hid ▸ hx)
    simp only [h.nodes, this, if_false, hn, Option.map_some, Option.some_inj] at hn'
    exact hn' ▸ ⟨rfl, rfl⟩
  case edit id _ h _ entry =>
    have : x ≠ id := fun hid => entry (hid ▸ he) (hid ▸ hx)
    simp only [h.nodes, this, if_false, hn, Option.map_some, Option.some_inj] at hn'
    exact hn' ▸ ⟨rfl, rfl⟩
  case remove h _ =>
    rw [h.nodes, hn] at hn'
    split at hn'
    · exact nomatch hn'
    · obtain rfl := Option.some_inj.1 hn'
      exact ⟨rfl, rfl⟩

-- An entry goes only with its policy.
theorem of_entry (wf : s.WellFormed) (hp : s.IsParent p x) (he : s.IsEntry x)
    (hps : p ∈ s'.nodes) : x ∈ s'.nodes := by
  have ⟨n, hn, hp⟩ := hp
  cases h
  case add h _ _ _ _ => exact h.mem_of_mem (mem_nodes_iff.2 ⟨n, hn⟩)
  case edit h _ _    => exact h.mem_of_mem (mem_nodes_iff.2 ⟨n, hn⟩)
  case remove id _ h whole =>
    have ⟨pn, hpn⟩ := mem_nodes_iff.1 hps
    have stays : ¬s.isWithin id p := fun hw => by simp [h.nodes, hw] at hpn
    have : ¬s.isWithin id x := fun hw => by
      rcases (wf.isWithin_of_parent hn hp).1 hw with rfl | hw
      · exact whole he
      · exact stays hw
    exact mem_nodes_iff.2 ⟨_, by simp [h.nodes, this, hn]; rfl⟩

end Revises

namespace Revised

theorem refl (h : base.Tidy) : Revised base base where
  tidy            := h
  content hb hn _ := by
    obtain rfl := Option.some_inj.1 (hb.symm.trans hn)
    exact ⟨rfl, rfl⟩
  ungrown hp _ _  := mem_nodes_iff.2 (hp.imp fun _ hn => hn.1)
  unshorn hp _ _  := mem_nodes_iff.2 (hp.imp fun _ hn => hn.1)

theorem revises (h : Revised base s) (before : base.WellFormed) (wf : s.WellFormed)
    (f : Follows base s) (step : Revises base s s') : Revised base s' := by
  have f' := step.follows wf
  refine ⟨⟨step.inPlace wf h.tidy.inPlace, fun {x p n'} hn' hp hname => ?_⟩,
    fun {x b n'} hb hn' he => ?_, fun {p x} hp hl hpb => ?_, fun {p x} hp he hps => ?_⟩
  · by_cases hx : x ∈ s.nodes
    case neg => exact (step.of_new hx hn').1 hname
    case pos =>
      have ⟨n, hn⟩ := mem_nodes_iff.1 hx
      have ⟨hname', hparent, _⟩ := f'.node hn hn'
      exact f'.isList (h.tidy.named hn (hparent ▸ hp) (hname' ▸ hname)) (mem_nodes_iff.2 ⟨n', hn'⟩)
  · have hxb := mem_nodes_iff.2 ⟨b, hb⟩
    have hx := step.mem_of_old hxb (mem_nodes_iff.2 ⟨n', hn'⟩)
    have ⟨n, hn⟩ := mem_nodes_iff.1 hx
    have he := step.kinds.entry hx he
    have ⟨mixins, properties⟩ := h.content hb hn he
    have ⟨mixins', properties'⟩ := step.of_old_entry hxb hn hn' he
    exact ⟨mixins'.trans mixins, properties'.trans properties⟩
  · by_cases hx : x ∈ s.nodes
    case neg =>
      have ⟨n', hn', hp⟩ := hp
      have ⟨hps, below⟩ := (step.of_new hx hn').2 p hp
      exact absurd hpb (below (step.kinds.list hps hl))
    case pos =>
      have hp := f'.isParent hp hx
      have ⟨n, hn, hnp⟩ := hp
      have hps := mem_nodes_iff.2 ((wf.listed hn hnp).imp fun _ hpn => hpn.1)
      exact h.ungrown hp (step.kinds.list hps hl) hpb
  · have ⟨b, hb, hbp⟩ := hp
    have hpb := mem_nodes_iff.2 ((before.listed hb hbp).imp fun _ hpn => hpn.1)
    have ⟨n, hn⟩ := mem_nodes_iff.1 (h.unshorn hp he (step.mem_of_old hpb hps))
    have hps' : s.IsParent p x := ⟨n, hn, (f.node hb hn).2.1.trans hbp⟩
    exact step.of_entry wf hps' (f.mem_effectiveTypes hb hn he) hps

end Revised

end Store

end PolicyTree
