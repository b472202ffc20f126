import PolicyTree.Proofs.Access.Collecting
import PolicyTree.Proofs.Policy.Naming
import PolicyTree.Proofs.Policy.Placement

namespace PolicyTree.Store

structure Quiet (base next : Store) : Prop where
  before  : base.WellFormed
  after   : next.WellFormed
  follows : Follows base next
  kinds   : KeepsKinds base next
  placed  : base.InPlace
  placed' : next.InPlace
  silent  : ∀ path, ¬Names base next path

variable {base next : Store} {id o p x : NodeId} {ns : List String} {r : Registry}
  {ps : PrincipalSet}

namespace InPlace

variable {s : Store}

-- Where a policy and an entry are to be found.

theorem stands_list (h : s.InPlace) (wf : s.WellFormed) (hl : s.IsList x) :
    ∃ ks o n, s.Stands ks o ∧ s.IsControlled o ∧ s.nodes[x]? = some n ∧ n.parent = some o ∧
      n.name = Policy.nodeName := by
  have ⟨n, hn⟩ := exists_of_mem_effectiveTypes hl
  have ⟨hname, o, ho, hc⟩ := (h.placed hn).list hl
  have ⟨on, hon, _⟩ := wf.listed hn ho
  have ⟨ks, hs⟩ := wf.stands hon
  exact ⟨ks, o, n, hs, hc, hn, ho, hname⟩

theorem stands_entry (h : s.InPlace) (wf : s.WellFormed) (he : s.IsEntry x) :
    ∃ ks p n, s.Stands (ks ++ [Policy.nodeName]) p ∧ s.IsList p ∧ s.nodes[x]? = some n ∧
      n.parent = some p ∧ n.name ≠ Policy.nodeName := by
  have ⟨n, hn⟩ := exists_of_mem_effectiveTypes he
  have ⟨hname, p, hp, hl⟩ := (h.placed hn).entry he
  have ⟨ks, o, pn, hs, _, hpn, ho, hpname⟩ := h.stands_list wf hl
  exact ⟨ks, p, n, hpname ▸ .child hs ho hpn, hl, hn, hp, hname⟩

end InPlace

namespace Quiet

variable (h : Quiet base next)

include h

theorem not_content_of_new (hx : x ∉ base.nodes) : ¬next.IsContent x := by
  have notList {x : NodeId} (hx : x ∉ base.nodes) (hl : next.IsList x) : False := by
    have ⟨ks, o, n, hs, hc, hn, ho, _⟩ := h.placed'.stands_list h.after hl
    exact h.silent _ (marks_of_added_policy h.after hs hn ho ⟨_, by simp, hc⟩ hl hx).names
  rintro (hl | he)
  · exact notList hx hl
  · have ⟨ks, p, n, hs, hl, hn, hp, _⟩ := h.placed'.stands_entry h.after he
    have other : ¬next.IsList x := fun hl => h.placed'.list_not_entry hl he
    exact h.silent _ (marks_of_added_entry h.after hs hn hp ⟨_, by simp, hl⟩ other he hx).names

theorem kept_of_content (hc : base.IsContent x) : x ∈ next.nodes := by
  have list {x : NodeId} (hl : base.IsList x) : x ∈ next.nodes := by
    have ⟨ks, o, n, hs, hc, hn, ho, hname⟩ := h.placed.stands_list h.before hl
    by_contra hx
    exact h.silent _ (marks_of_removed_policy h.before hs hn ho hname ⟨_, by simp, hc⟩ hx).names
  refine hc.elim list fun he => ?_
  have ⟨ks, p, n, hs, hl, hn, hp, hname⟩ := h.placed.stands_entry h.before he
  have ⟨pn, hpn⟩ := h.before.mem_of_stands hs
  have ⟨pn', hpn'⟩ := mem_nodes_iff.1 (list hl)
  by_contra hx
  have hs' := h.follows.stands h.after hs hpn'
  have hl' := h.follows.mem_effectiveTypes hpn hpn' hl
  exact h.silent _
    (marks_of_removed_entry h.before h.after hs hs' hn hp hname ⟨_, by simp, hl⟩ hl' hx).names

theorem list_iff : next.IsList x ↔ base.IsList x := by
  constructor
  case mp =>
    intro hl
    exact h.kinds.list (not_not.1 fun hx => h.not_content_of_new hx (.inl hl)) hl
  case mpr =>
    intro hl
    have ⟨n, hn⟩ := exists_of_mem_effectiveTypes hl
    have ⟨n', hn'⟩ := mem_nodes_iff.1 (h.kept_of_content (.inl hl))
    exact h.follows.mem_effectiveTypes hn hn' hl

theorem entry_iff : next.IsEntry x ↔ base.IsEntry x := by
  constructor
  case mp =>
    intro he
    exact h.kinds.entry (not_not.1 fun hx => h.not_content_of_new hx (.inr he)) he
  case mpr =>
    intro he
    have ⟨n, hn⟩ := exists_of_mem_effectiveTypes he
    have ⟨n', hn'⟩ := mem_nodes_iff.1 (h.kept_of_content (.inr he))
    exact h.follows.mem_effectiveTypes hn hn' he

theorem content_iff : next.IsContent x ↔ base.IsContent x := or_congr h.list_iff h.entry_iff

-- Content stays in its place.
theorem stands_of_content (hc : base.IsContent x) (hs : base.Stands ns x) : next.Stands ns x := by
  have ⟨n, hn⟩ := mem_nodes_iff.1 (h.kept_of_content hc)
  exact h.follows.stands h.after hs hn

theorem not_oldNodeTurnsPolicy (hb : o ∈ base.nodes) (hn : o ∈ next.nodes) :
    ¬OldNodeTurnsPolicy base next o := by
  rintro ⟨none, policy, hpolicy, hp, _⟩
  have ⟨b, hb⟩ := mem_nodes_iff.1 hb
  have ⟨n, hn⟩ := mem_nodes_iff.1 hn
  have ⟨_, hl, pn, hpn, hparent, _⟩ := (policyOf_eq_some_iff h.after hn).1 hp
  have hl := h.list_iff.1 hl
  have ⟨_, o', pb, _, hc, hpb, ho', hname⟩ := h.placed.stands_list h.before hl
  obtain rfl : o' = o := by
    have := (h.follows.node hpb hpn).2.1
    simp_all
  have := (policyOf_eq_some_iff h.before hb).2 ⟨hc, hl, pb, hpb, ho', hname⟩
  simp [none] at this

theorem load_eq (hs : base.Stands ns o) (hs' : next.Stands ns o) :
    Policy.load (next.view .initial) r ⟨o, Path.ofNames ns⟩ =
      Policy.load (base.view .initial) r ⟨o, Path.ofNames ns⟩ := by
  have there {s : Store} (wf : s.WellFormed) (hs : s.Stands ns o) : o ∈ s.nodes :=
    mem_nodes_iff.2 (wf.mem_of_stands hs)
  by_contra ne
  exact (names_of_load_ne h.before h.after h.follows (h.before.handle_eq hs) (h.after.handle_eq hs')
    (Ne.symm ne) (h.not_oldNodeTurnsPolicy (there h.before hs) (there h.after hs'))).elim
    (h.silent _) fun hn => h.silent _ hn.2

-- A node that was there only before or is there only now had no policy and has none.

theorem policyOf_of_gone (hs : base.Stands ns o) (hx : o ∉ next.nodes) :
    base.policyOf? .initial o = none := by
  have ⟨b, hb⟩ := h.before.mem_of_stands hs
  refine Option.eq_none_iff_forall_ne_some.2 fun p hp => hx ?_
  have ⟨_, hl, pn, hpn, hparent, _⟩ := (policyOf_eq_some_iff h.before hb).1 hp
  have ⟨pn', hpn'⟩ := mem_nodes_iff.1 (h.kept_of_content (.inl hl))
  have ⟨on, hon, _⟩ := h.after.listed hpn' ((h.follows.node hpn hpn').2.1.trans hparent)
  exact mem_nodes_iff.2 ⟨on, hon⟩

theorem policyOf_of_new (hs : next.Stands ns o) (hx : o ∉ base.nodes) :
    next.policyOf? .initial o = none := by
  have ⟨n, hn⟩ := h.after.mem_of_stands hs
  refine Option.eq_none_iff_forall_ne_some.2 fun p hp => hx ?_
  have ⟨_, hl, pn, hpn, hparent, _⟩ := (policyOf_eq_some_iff h.after hn).1 hp
  have ⟨pb, hpb⟩ := exists_of_mem_effectiveTypes (h.list_iff.1 hl)
  have ⟨ob, hob, _⟩ := h.before.listed hpb ((h.follows.node hpb hpn).2.1.symm.trans hparent)
  exact mem_nodes_iff.2 ⟨ob, hob⟩

theorem levelAt_eq : next.levelAt .initial r ps ns = base.levelAt .initial r ps ns := by
  by_cases kept : ∃ x, base.Stands ns x ∧ next.Stands ns x
  case pos =>
    obtain ⟨x, hs, hs'⟩ := kept
    rw [h.before.levelAt_of_stands hs, h.after.levelAt_of_stands hs', Collection.level,
      h.load_eq hs hs']
    rfl
  case neg =>
    have before : base.levelAt .initial r ps ns = .ok [] := by
      by_cases hs : ∃ x, base.Stands ns x
      case neg => exact h.before.levelAt_of_not_stands fun x hx => hs ⟨x, hx⟩
      case pos =>
        obtain ⟨x, hs⟩ := hs
        refine h.before.levelAt_of_no_policy hs (h.policyOf_of_gone hs fun hx => kept ?_)
        obtain ⟨n, hn⟩ := mem_nodes_iff.1 hx
        exact ⟨x, hs, h.follows.stands h.after hs hn⟩
    have after : next.levelAt .initial r ps ns = .ok [] := by
      by_cases hs : ∃ x, next.Stands ns x
      case neg => exact h.after.levelAt_of_not_stands fun x hx => hs ⟨x, hx⟩
      case pos =>
        obtain ⟨x, hs⟩ := hs
        refine h.after.levelAt_of_no_policy hs (h.policyOf_of_new hs fun hx => kept ?_)
        obtain ⟨b, hb⟩ := mem_nodes_iff.1 hx
        exact ⟨x, h.follows.stands_before h.before h.after hs hb, hs⟩
    rw [before, after]

theorem entriesAlong_eq :
    next.entriesAlong .initial r ps ns = base.entriesAlong .initial r ps ns := by
  have : next.levelAt .initial r ps = base.levelAt .initial r ps := funext fun _ => h.levelAt_eq
  rw [entriesAlong, this, entriesAlong]

end Quiet

end PolicyTree.Store
