import Mathlib.Data.List.Basic
import PolicyTree.Proofs.Tree.Reading
import PolicyTree.Proofs.Tree.Writing
import PolicyTree.Proofs.Types

namespace PolicyTree.Store

variable {s s' : Store} {id : NodeId}

-- A tree that was written from another has kept of its nodes what no write changes, and those
-- children of a node that it has kept are in the order that they had.
structure Follows (base s : Store) : Prop where
  root     : s.root = base.root
  node     : ∀ {x : NodeId} {b n : Node}, base.nodes[x]? = some b → s.nodes[x]? = some n →
    n.name = b.name ∧ n.parent = b.parent ∧ n.primaryType = b.primaryType ∧ b.mixins <+: n.mixins
  children : ∀ {x : NodeId} {b n : Node}, base.nodes[x]? = some b → s.nodes[x]? = some n →
    n.children.filter (· ∈ base.nodes) = b.children.filter (· ∈ s.nodes)

namespace Follows

theorem refl : Follows s s where
  root := rfl
  node hb hn := by
    obtain rfl := Option.some_inj.1 (hb.symm.trans hn)
    exact ⟨rfl, rfl, rfl, List.prefix_refl _⟩
  children hb hn := by
    obtain rfl := Option.some_inj.1 (hb.symm.trans hn)
    rfl

theorem written (h : s.WellFormed) (hw : Written s s' id) : Follows s s' := by
  cases hw
  case edited e he =>
    refine ⟨he.root, fun hb hn => ?_, fun hb hn => ?_⟩ <;>
      obtain ⟨b, hb', e⟩ := WellFormed.before_edit he hn <;>
      obtain rfl := Option.some_inj.1 (hb.symm.trans hb')
    · exact ⟨e.name, e.parent, e.primaryType, e.mixins⟩
    · rw [e.children]
      refine List.filter_congr fun c hc => ?_
      have ⟨n, hn, _⟩ := h.child hb hc
      have ⟨n', hn', _⟩ := WellFormed.after_edit he hn
      simp [mem_nodes_iff, hn, hn']
  case added p name type ha =>
    have old {x : NodeId} {b : Node} (hb : s.nodes[x]? = some b) : s'.nodes[x]? =
        some { b with children := b.children ++ if x = p then [id] else [] } := by
      have : x ≠ id := by
        rintro rfl
        exact absurd hb (by simp [ha.fresh])
      simp [ha.nodes, this, hb]
    refine ⟨ha.root, fun hb hn => ?_, fun {x b n} hb hn => ?_⟩ <;>
      obtain rfl := Option.some_inj.1 ((old hb).symm.trans hn)
    · simp
    · have new : (if x = p then [id] else []).filter (· ∈ s.nodes) = [] := by
        split <;> simp [mem_nodes_iff, ha.fresh]
      rw [List.filter_append, new, List.append_nil]
      refine List.filter_congr fun c hc => ?_
      have ⟨n, hn, _⟩ := h.child hb hc
      simp [mem_nodes_iff, hn, old hn]
  case removed top p hr =>
    have ⟨m, hm, hmp⟩ := hr.node
    have kept {x : NodeId} {b n : Node} (hb : s.nodes[x]? = some b) (hn : s'.nodes[x]? = some n) :
        ¬s.isWithin top x ∧
        n = { b with children := if x = p then b.children.filter (· ≠ top) else b.children } := by
      rw [hr.nodes] at hn
      split at hn
      case isTrue => simp at hn
      case isFalse hx => simpa [hx, hb, eq_comm] using hn
    refine ⟨hr.root, fun hb hn => ?_, fun {x b n} hb hn => ?_⟩ <;>
      obtain ⟨hx, rfl⟩ := kept hb hn
    · simp
    · -- Of the children of a node that stays only the removed one goes.
      have goes {c : NodeId} (hc : c ∈ b.children) : c ∈ s.nodes ∧ (c ∈ s'.nodes ↔ c ≠ top) := by
        have ⟨n, hn, hcx⟩ := h.child hb hc
        have : s.isWithin top c ↔ _ := h.isWithin_of_parent hn hcx
        simp [mem_nodes_iff, hr.nodes, hn, this, hx]
      have stays (hxp : x ≠ p) : top ∉ b.children := fun hc => by
        have ⟨n, hn, hcx⟩ := h.child hb hc
        simp_all
      split
      case isTrue hxp =>
        rw [List.filter_filter]
        exact List.filter_congr fun c hc => by simp [goes hc]
      case isFalse hxp =>
        refine List.filter_congr fun c hc => ?_
        have : c ≠ top := fun he => stays hxp (he ▸ hc)
        simp [goes hc, this]

theorem trans {t : Store} (h : s.WellFormed) (ht : t.WellFormed) (f : Follows s s')
    (g : Follows s' t) (old : ∀ x ∈ s.nodes, x ∈ t.nodes → x ∈ s'.nodes) : Follows s t where
  root := g.root.trans f.root
  node {x b n} hb hn := by
    have ⟨m, hm⟩ := mem_nodes_iff.1 (old x (mem_nodes_iff.2 ⟨b, hb⟩) (mem_nodes_iff.2 ⟨n, hn⟩))
    have ⟨hname, hparent, htype, hmixins⟩ := f.node hb hm
    have ⟨hname', hparent', htype', hmixins'⟩ := g.node hm hn
    exact ⟨hname'.trans hname, hparent'.trans hparent, htype'.trans htype,
      hmixins.trans hmixins'⟩
  children {x b n} hb hn := by
    have ⟨m, hm⟩ := mem_nodes_iff.1 (old x (mem_nodes_iff.2 ⟨b, hb⟩) (mem_nodes_iff.2 ⟨n, hn⟩))
    have mem {s : Store} {x c : NodeId} {b : Node} (h : s.WellFormed) (hb : s.nodes[x]? = some b)
        (hc : c ∈ b.children) : c ∈ s.nodes :=
      mem_nodes_iff.2 ((h.child hb hc).imp fun _ hn => hn.1)
    calc n.children.filter (· ∈ s.nodes)
      _ = (n.children.filter (· ∈ s'.nodes)).filter (· ∈ s.nodes) := by
        rw [List.filter_filter]
        refine List.filter_congr fun c hc => ?_
        have := old c
        have := mem ht hn hc
        simp_all
      _ = (m.children.filter (· ∈ t.nodes)).filter (· ∈ s.nodes) := by rw [g.children hm hn]
      _ = (m.children.filter (· ∈ s.nodes)).filter (· ∈ t.nodes) := List.filter_comm ..
      _ = (b.children.filter (· ∈ s'.nodes)).filter (· ∈ t.nodes) := by rw [f.children hb hm]
      _ = b.children.filter (· ∈ t.nodes) := by
        rw [List.filter_filter]
        refine List.filter_congr fun c hc => ?_
        have := old c (mem h hb hc)
        simp_all

variable {base next : Store} {b n : Node}

theorem stands {ns : List String} (f : Follows base next) (h' : next.WellFormed)
    (hs : base.Stands ns id) (hn : next.nodes[id]? = some n) : next.Stands ns id := by
  induction hs generalizing n
  case root => exact f.root ▸ .root
  case child b above hp hb hi =>
    have ⟨hname, hparent, _⟩ := f.node hb hn
    have ⟨pn, hpn, _⟩ := h'.listed hn (hparent.trans hp)
    exact hname ▸ .child (hi hpn) (hparent.trans hp) hn

theorem stands_before {ns : List String} (f : Follows base next) (h : base.WellFormed)
    (h' : next.WellFormed) (hs : next.Stands ns id) (hb : base.nodes[id]? = some b) :
    base.Stands ns id := by
  have ⟨ms, hms⟩ := h.stands hb
  have ⟨n, hn⟩ := h'.mem_of_stands hs
  exact h'.stands_unique (f.stands h' hms hn) hs ▸ hms

theorem mem_effectiveTypes {types : NodeTypes} {type : String} (f : Follows base next)
    (hb : base.nodes[id]? = some b) (hn : next.nodes[id]? = some n)
    (ht : type ∈ base.effectiveTypes types id) : type ∈ next.effectiveTypes types id := by
  rw [Store.mem_effectiveTypes hb] at ht
  rw [Store.mem_effectiveTypes hn]
  refine NodeTypes.expand_mono (fun t ht => ?_) ht
  have ⟨_, _, hp, hm⟩ := f.node hb hn
  rcases List.mem_cons.1 ht with rfl | ht
  · exact List.mem_cons.2 (.inl hp.symm)
  · exact List.mem_cons_of_mem _ (hm.subset ht)

end Follows

end PolicyTree.Store
