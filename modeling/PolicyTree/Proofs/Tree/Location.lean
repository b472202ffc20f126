import Mathlib.Data.List.Nodup
import Mathlib.Data.List.Perm.Subperm
import PolicyTree.Proofs.Paths
import PolicyTree.Proofs.Tree.Removal

namespace PolicyTree.Store

-- The names on the way from the root down to a node.
inductive Stands (s : Store) : List String → NodeId → Prop
  | root : Stands s [] s.root
  | child {ns : List String} {p id : NodeId} {n : Node} (above : Stands s ns p)
    (parent : n.parent = some p) (node : s.nodes[id]? = some n) : Stands s (ns ++ [n.name]) id

structure IsPropertyName (name : String) : Prop where
  valid     : Path.validateName name = .ok ()
  not_mixin : name ≠ mixinProperty

instance {name : String} : Decidable (IsPropertyName name) :=
  decidable_of_iff (Path.validateName name = .ok () ∧ name ≠ mixinProperty)
    ⟨fun h => ⟨h.1, h.2⟩, fun h => ⟨h.1, h.2⟩⟩

theorem isSegment_mixinProperty : Path.IsSegment mixinProperty :=
  Path.isSegment_of_validateName (by decide)

structure WellFormed (s : Store) : Prop where
  root     : ∃ n, s.nodes[s.root]? = some n ∧ n.parent = none
  orphan   : ∀ {id : NodeId} {n : Node}, s.nodes[id]? = some n → n.parent = none → id = s.root
  listed   : ∀ {id p : NodeId} {n : Node}, s.nodes[id]? = some n → n.parent = some p →
    ∃ pn, s.nodes[p]? = some pn ∧ id ∈ pn.children
  child    : ∀ {p id : NodeId} {pn : Node}, s.nodes[p]? = some pn → id ∈ pn.children →
    ∃ n, s.nodes[id]? = some n ∧ n.parent = some p
  nodup    : ∀ {p : NodeId} {pn : Node}, s.nodes[p]? = some pn → pn.children.Nodup
  distinct : ∀ {a b p : NodeId} {an bn : Node}, s.nodes[a]? = some an → s.nodes[b]? = some bn →
    an.parent = some p → bn.parent = some p → an.name = bn.name → a = b
  names    : ∀ {id p : NodeId} {n : Node}, s.nodes[id]? = some n → n.parent = some p →
    Path.validateName n.name = .ok ()
  stands   : ∀ {id : NodeId} {n : Node}, s.nodes[id]? = some n → ∃ ns, s.Stands ns id
  properties : ∀ {id : NodeId} {n : Node} {name : String}, s.nodes[id]? = some n →
    name ∈ n.properties → IsPropertyName name

def IsParent (s : Store) (p c : NodeId) : Prop := ∃ n, s.nodes[c]? = some n ∧ n.parent = some p

variable {s : Store} {id p a b : NodeId} {n pn : Node} {ns ms : List String} {name : String}

theorem mem_nodes_iff : id ∈ s.nodes ↔ ∃ n, s.nodes[id]? = some n := by
  rw [Std.ExtTreeMap.mem_iff_isSome_getElem?, Option.isSome_iff_exists]

theorem stands_nil_iff : s.Stands [] id ↔ id = s.root := by
  constructor
  case mpr => rintro rfl; exact .root
  case mp =>
    intro hs
    generalize hm : [] = ms at hs
    cases hs
    case root  => rfl
    case child => simp at hm

theorem stands_concat_iff : s.Stands (ns ++ [name]) id ↔
    ∃ p n, s.Stands ns p ∧ n.parent = some p ∧ s.nodes[id]? = some n ∧ n.name = name := by
  constructor
  case mpr => rintro ⟨p, n, above, hp, hn, rfl⟩; exact .child above hp hn
  case mp =>
    intro hs
    generalize hm : ns ++ [name] = ms at hs
    cases hs
    case root => simp at hm
    case child n above hp hn =>
      obtain ⟨rfl, hname⟩ := List.append_inj' hm rfl
      exact ⟨_, n, above, hp, hn, by simpa using hname.symm⟩

namespace WellFormed

variable (h : s.WellFormed)

include h

theorem mem_of_stands (hs : s.Stands ns id) : ∃ n, s.nodes[id]? = some n := by
  cases hs
  case root => exact h.root.imp fun _ hn => hn.1
  case child hn => exact ⟨_, hn⟩

theorem isSegment (hn : s.nodes[id]? = some n) (hp : n.parent = some p) : Path.IsSegment n.name :=
  Path.isSegment_of_validateName (h.names hn hp)

theorem isSegment_of_stands (hs : s.Stands ns id) : ∀ n ∈ ns, Path.IsSegment n := by
  induction hs
  case root => simp
  case child hp hn hi => simpa [or_imp, forall_and] using ⟨hi, h.isSegment hn hp⟩

theorem stands_unique (hs : s.Stands ns id) (hs' : s.Stands ms id) : ns = ms := by
  induction hs generalizing ms
  case root =>
    have ⟨r, hr, hp⟩ := h.root
    cases hs' <;> simp_all
  case child hp hn hi =>
    cases hs'
    case root =>
      have ⟨r, hr, hp⟩ := h.root
      simp_all
    case child above hp' hn' =>
      obtain rfl := Option.some_inj.1 (hn.symm.trans hn')
      obtain rfl := Option.some_inj.1 (hp.symm.trans hp')
      rw [hi above]

theorem stands_inj (hs : s.Stands ns a) (hs' : s.Stands ns b) : a = b := by
  induction hs generalizing b
  case root => exact (stands_nil_iff.1 hs').symm
  case child hp hn hi =>
    have ⟨q, m, above, hq, hm, hname⟩ := stands_concat_iff.1 hs'
    obtain rfl := hi above
    exact h.distinct hn hm hp hq hname.symm

-- The nodes on the way to a node are all different, so there are no more of them than there are
-- nodes.
theorem length_lt_size (hs : s.Stands ns id) : ns.length < s.nodes.size := by
  have way : ∃ ids : List NodeId, ids.length = ns.length + 1 ∧ ids.Nodup ∧
      ∀ x ∈ ids, ∃ ms, ms <+: ns ∧ s.Stands ms x := by
    induction hs
    case root => exact ⟨[s.root], by simp, by simp, by simpa using Stands.root⟩
    case child ns p id n above hp hn hi =>
      have ⟨ids, hl, hd, hw⟩ := hi
      refine ⟨id :: ids, by simp [hl], List.nodup_cons.2 ⟨fun hc => ?_, hd⟩, fun x hx => ?_⟩
      · have ⟨ms, hm, hms⟩ := hw id hc
        have := h.stands_unique hms (.child above hp hn)
        have := (this ▸ hm).length_le
        exact absurd this (by simp)
      · rcases List.mem_cons.1 hx with rfl | hx
        · exact ⟨_, List.prefix_refl _, .child above hp hn⟩
        · have ⟨ms, hm, hms⟩ := hw x hx
          exact ⟨ms, hm.trans (List.prefix_append ..), hms⟩
  have ⟨ids, hl, hd, hw⟩ := way
  have : ids ⊆ s.nodes.keys := fun x hx => by
    have ⟨_, _, hx⟩ := hw x hx
    have ⟨n, hn⟩ := h.mem_of_stands hx
    exact Std.ExtTreeMap.mem_keys.2 (Std.ExtTreeMap.mem_iff_isSome_getElem?.2 (by simp [hn]))
  have := (hd.subperm this).length_le
  rw [Std.ExtTreeMap.length_keys] at this
  omega

theorem lineage_go (hs : s.Stands ns id) (k : Nat) (hk : ns.length < k) :
    ∃ way, lineage?.go s k id = some way ∧ way ≠ [] ∧
      (way.dropLast.map (·.2.name)).reverse = ns ∧
      List.Forall₂ s.Stands ns.inits.reverse (way.map (·.1)) := by
  induction hs generalizing k
  case root =>
    have ⟨r, hr, hp⟩ := h.root
    cases k
    case zero => simp at hk
    case succ k =>
      refine ⟨[(s.root, r)], by simp [lineage?.go, hr, hp], by simp, by simp, ?_⟩
      exact .cons .root .nil
  case child ns p id n above hp hn hi =>
    cases k
    case zero => simp at hk
    case succ k =>
      have ⟨way, hw, hne, hnames, hstands⟩ := hi k (by simpa using hk)
      refine ⟨(id, n) :: way, by simp [lineage?.go, hn, hp, hw], by simp, ?_, ?_⟩
      · simp [List.dropLast_cons_of_ne_nil hne, ← hnames]
      · rw [Path.inits_concat, List.reverse_append, List.reverse_singleton, List.singleton_append]
        exact .cons (.child above hp hn) hstands

theorem lineage_eq (hs : s.Stands ns id) : ∃ way, s.lineage? id = some way ∧
    (way.dropLast.map (·.2.name)).reverse = ns ∧
    List.Forall₂ s.Stands ns.inits.reverse (way.map (·.1)) := by
  have ⟨way, hw, _, hnames, hstands⟩ := h.lineage_go hs _ (h.length_lt_size hs)
  exact ⟨way, hw, hnames, hstands⟩

theorem pathOf_eq (hs : s.Stands ns id) : s.pathOf? id = some (Path.ofNames ns) := by
  have ⟨way, hw, hnames, _⟩ := h.lineage_eq hs
  simp only [pathOf?, hw, Option.bind_eq_bind, Option.bind_some, hnames,
    Path.intercalate_eq_ofNames]
  rfl

theorem leadsTo_iff : LeadsTo s.nodes p id ↔ s.IsParent p id := by
  constructor
  case mp  => exact fun ⟨pn, hpn, hc⟩ => h.child hpn hc
  case mpr => exact fun ⟨n, hn, hp⟩ => h.listed hn hp

-- Those above a node are the ones on the way to it.
theorem descends_iff (hs : s.Stands ns id) :
    Relation.ReflTransGen s.IsParent p id ↔ ∃ ms, ms <+: ns ∧ s.Stands ms p := by
  constructor
  case mp =>
    intro way
    induction way generalizing ns
    case refl => exact ⟨ns, List.prefix_refl _, hs⟩
    case tail q id way hq hi =>
      obtain ⟨n, hn, hnq⟩ := hq
      cases hs
      case root =>
        have ⟨r, hr, hp⟩ := h.root
        simp_all
      case child above hp hn' =>
        obtain rfl := Option.some_inj.1 (hn.symm.trans hn')
        obtain rfl := Option.some_inj.1 (hnq.symm.trans hp)
        exact (hi above).imp fun ms hm => ⟨hm.1.trans (List.prefix_append ..), hm.2⟩
  case mpr =>
    rintro ⟨ms, hm, hms⟩
    induction hs
    case root =>
      obtain rfl := List.prefix_nil.1 hm
      exact stands_nil_iff.1 hms ▸ .refl
    case child q id n above hp hn hi =>
      rcases List.prefix_concat_iff.1 hm with rfl | hm
      · exact h.stands_inj hms (.child above hp hn) ▸ .refl
      · exact .tail (hi hm) ⟨n, hn, hp⟩

theorem isWithin_iff_descends : s.isWithin p id ↔
    id ∈ s.nodes ∧ Relation.ReflTransGen s.IsParent p id := by
  have : LeadsTo s.nodes = s.IsParent := funext₂ fun _ _ => propext h.leadsTo_iff
  rw [isWithin_iff_leads, this]

theorem isWithin_iff (hs : s.Stands ns id) :
    s.isWithin p id ↔ ∃ ms, ms <+: ns ∧ s.Stands ms p := by
  have : id ∈ s.nodes := (h.mem_of_stands hs).elim fun n hn =>
    Std.ExtTreeMap.mem_iff_isSome_getElem?.2 (by simp [hn])
  rw [h.isWithin_iff_descends, ← h.descends_iff hs]
  exact and_iff_right this

theorem pathOf_isSome_iff : (∃ path, s.pathOf? id = some path) ↔ ∃ n, s.nodes[id]? = some n := by
  constructor
  case mp =>
    rintro ⟨path, hp⟩
    cases hn : s.nodes[id]?
    case some n => exact ⟨n, rfl⟩
    case none =>
      have (k : Nat) : lineage?.go s k id = none := by cases k <;> simp [lineage?.go, hn]
      simp [pathOf?, lineage?, this] at hp
  case mpr =>
    rintro ⟨n, hn⟩
    have ⟨ns, hs⟩ := h.stands hn
    exact ⟨_, h.pathOf_eq hs⟩

theorem stands_of_pathOf {path : String} (hp : s.pathOf? id = some path) :
    ∃ ns, s.Stands ns id ∧ path = Path.ofNames ns := by
  have ⟨n, hn⟩ := h.pathOf_isSome_iff.1 ⟨path, hp⟩
  have ⟨ns, hs⟩ := h.stands hn
  exact ⟨ns, hs, Option.some_inj.1 (hp.symm.trans (h.pathOf_eq hs))⟩

-- Children by name.

theorem child_eq_some_iff (hp : s.nodes[p]? = some pn) :
    s.child? p name = some id ↔
      ∃ n, s.nodes[id]? = some n ∧ n.parent = some p ∧ n.name = name := by
  have hasName (c : NodeId) : s.hasName name c ↔ ∃ n, s.nodes[c]? = some n ∧ n.name = name := by
    simp [Store.hasName, Option.any_eq_true]
  have found : s.child? p name = pn.children.find? (s.hasName name) := by
    simp [Store.child?, hp]
  rw [found]
  constructor
  case mp =>
    intro hc
    have ⟨n, hn, hname⟩ := (hasName id).1 (List.find?_some hc)
    have ⟨n', hn', hp'⟩ := h.child hp (List.mem_of_find?_eq_some hc)
    exact ⟨n, hn, by simp_all, hname⟩
  case mpr =>
    rintro ⟨n, hn, hnp, hname⟩
    have ⟨pn', hpn', hc⟩ := h.listed hn hnp
    obtain rfl := Option.some_inj.1 (hp.symm.trans hpn')
    cases hf : pn.children.find? (s.hasName name)
    case none =>
      have := List.find?_eq_none.1 hf id hc
      exact absurd ((hasName id).2 ⟨n, hn, hname⟩) this
    case some c =>
      have ⟨cn, hcn, hcname⟩ := (hasName c).1 (List.find?_some hf)
      have ⟨cn', hcn', hcp⟩ := h.child hp (List.mem_of_find?_eq_some hf)
      obtain rfl := Option.some_inj.1 (hcn.symm.trans hcn')
      rw [h.distinct hcn hn hcp hnp (hcname.trans hname.symm)]

theorem child_stands_iff (hs : s.Stands ns p) :
    s.child? p name = some id ↔ s.Stands (ns ++ [name]) id := by
  have ⟨pn, hpn⟩ := h.mem_of_stands hs
  rw [h.child_eq_some_iff hpn, stands_concat_iff]
  constructor
  case mp =>
    rintro ⟨n, hn, hp, hname⟩
    exact ⟨p, n, hs, hp, hn, hname⟩
  case mpr =>
    rintro ⟨q, n, above, hq, hn, hname⟩
    obtain rfl := h.stands_inj hs above
    exact ⟨n, hn, hq, hname⟩

theorem foldlM_child_iff : ns.foldlM s.child? s.root = some id ↔ s.Stands ns id := by
  induction ns using List.reverseRecOn generalizing id
  case nil => simp [stands_nil_iff, eq_comm]
  case append_singleton ns n hi =>
    rw [List.foldlM_append]
    cases hf : ns.foldlM s.child? s.root
    case some p => simpa using h.child_stands_iff (hi.1 hf)
    case none =>
      have : ¬s.Stands (ns ++ [n]) id := fun hs => by
        have ⟨p, _, above, _⟩ := stands_concat_iff.1 hs
        simp [hi.2 above] at hf
      simpa using this

end WellFormed

theorem resolve_ofNames (hv : ∀ n ∈ ns, Path.IsSegment n) :
    s.resolve (Path.ofNames ns) = .ok (ns.foldlM s.child? s.root) := by
  rw [resolve, Path.validate_ofNames hv]
  by_cases hn : ns = []
  case pos => subst hn; rfl
  case neg =>
    rw [if_neg ((Path.ofNames_eq_root_iff hv).not.2 hn), Path.names_ofNames hv hn]
    rfl

end PolicyTree.Store
