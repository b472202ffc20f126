import Mathlib.Tactic.Common
import PolicyTree.Proofs.Policy.Content
import PolicyTree.Proofs.Policy.Summary

namespace PolicyTree

namespace TreeView

def PolicyAt (tree : TreeView) (path : String) (policy : NodeHandle) : Prop :=
  ∃ owner, tree.resolve path = .ok (some owner) ∧ Policy.node? tree owner = .ok (some policy)

def HasEntry (tree : TreeView) (policy : NodeHandle) : Prop :=
  ∃ children, tree.children policy = .ok children ∧
    ∃ entry ∈ children, tree.isType entry Policy.entryType = .ok true

-- A policy of one tree is no node of the other.
def Lacks (other tree : TreeView) (path : String) (policy : NodeHandle) : Prop :=
  tree.PolicyAt path policy ∧ other.nodeById policy.id = .ok none

end TreeView

namespace PolicyChange

def Comes (before after : TreeView) (path : String) : Prop :=
  ∃ policy, before.Lacks after path policy

def Goes (before after : TreeView) (path : String) : Prop :=
  ∃ policy, after.Lacks before path policy

-- A policy has come that has entries, or where there was one that had.
def Rewrites (before after : TreeView) (path : String) : Prop :=
  ∃ policy, before.Lacks after path policy ∧ (after.HasEntry policy ∨
    ∃ former, before.PolicyAt path former ∧ before.HasEntry former)

-- What is said of policies is what has become of them.
structure Exact (before after : TreeView) (change : PolicyChange) : Prop where
  names    : ∀ path, path ∈ change ↔ Comes before after path ∨ Goes before after path
  added    : ∀ path, .added ⊆ change.flags path ↔ Comes before after path
  removed  : ∀ path, .removed ⊆ change.flags path ↔ Goes before after path
  modified : ∀ path, .modified ⊆ change.flags path ↔ Rewrites before after path

theorem Exact.isEmpty_iff {before after : TreeView} {change : PolicyChange}
    (h : Exact before after change) :
    change.isEmpty ↔ ∀ path, ¬Comes before after path ∧ ¬Goes before after path := by
  simp only [Std.ExtTreeMap.isEmpty_iff, Std.ExtTreeMap.eq_empty_iff_forall_not_mem, h.names,
    not_or]

end PolicyChange

namespace Store

variable {base next s other : Store} {path : String} {m : Modifications} {policy : NodeHandle}
  {n : Node}

theorem InPlace.view_policyAt (placed : s.InPlace) (h : s.WellFormed) :
    (s.view .initial).PolicyAt path policy ↔ ∃ ns x, Path.ofNames ns = path ∧ s.PolicyAt ns x ∧
      policy = ⟨x, Path.ofNames (ns ++ [Policy.nodeName])⟩ := by
  constructor
  case mp =>
    rintro ⟨owner, hr, hp⟩
    obtain ⟨_, ns, hs, rfl⟩ := h.of_resolve hr
    have ⟨n, hn⟩ := h.mem_of_stands hs
    rw [Policy.node_eq h hn, Except.ok.injEq, Option.bind_eq_some_iff] at hp
    obtain ⟨x, hx, ho⟩ := hp
    obtain ⟨_, hl, pn, hpn, hparent, hname⟩ := (policyOf_eq_some_iff h hn).1 hx
    have hat : s.PolicyAt ns x := ⟨hl, hname ▸ .child hs hparent hpn⟩
    exact ⟨ns, x, rfl, hat, Option.some_inj.1 (ho.symm.trans (h.handle_eq hat.2))⟩
  case mpr =>
    rintro ⟨ns, x, rfl, hp, rfl⟩
    obtain ⟨o, pn, hs, hpn, hparent, hname, hc⟩ := placed.of_policyAt hp
    obtain ⟨found, hfound, stands⟩ := h.view_resolve (t := .initial) (h.isSegment_of_stands hs)
    have ⟨n, hn⟩ := h.mem_of_stands hs
    have owner := (stands ⟨o, Path.ofNames ns⟩).2 ⟨hs, rfl⟩
    refine ⟨_, owner ▸ hfound, ?_⟩
    rw [Policy.node_eq h hn, (policyOf_eq_some_iff h hn).2 ⟨hc, hp.1, pn, hpn, hparent, hname⟩]
    exact congrArg _ (h.handle_eq hp.2)

theorem WellFormed.view_hasEntry (h : s.WellFormed) (hn : s.nodes[policy.id]? = some n) :
    (s.view .initial).HasEntry policy ↔ s.HasEntry policy.id := by
  rw [TreeView.HasEntry, h.view_children hn]
  constructor
  case mp =>
    rintro ⟨children, hchildren, entry, he, ht⟩
    obtain rfl := Except.ok.inj hchildren
    obtain ⟨e, hc, ho⟩ := List.mem_filterMap.1 he
    obtain rfl := (h.handle_eq_some_iff.1 ho).1
    obtain ⟨en, hen, hp⟩ := h.child hn hc
    refine ⟨entry.id, ⟨en, hen, hp⟩, ?_⟩
    simpa [view_isType hen, IsEntry] using ht
  case mpr =>
    rintro ⟨e, ⟨en, hen, hp⟩, he⟩
    obtain ⟨pn, hpn, hc⟩ := h.listed hen hp
    obtain rfl := Option.some_inj.1 (hn.symm.trans hpn)
    obtain ⟨ns, hs⟩ := h.stands hen
    have ho := h.handle_eq hs
    refine ⟨_, rfl, _, List.mem_filterMap.2 ⟨e, hc, ho⟩, ?_⟩
    have ht : (s.view .initial).isType ⟨e, Path.ofNames ns⟩ Policy.entryType = _ := view_isType hen
    rw [ht]
    exact congrArg _ (decide_eq_true he)

theorem exists_lacks_iff (placed : s.InPlace) (h : s.WellFormed) (h' : other.WellFormed) :
    (∃ policy, (other.view .initial).Lacks (s.view .initial) path policy) ↔
      ∃ ns x, Path.ofNames ns = path ∧ s.PolicyAt ns x ∧ x ∉ other.nodes := by
  simp only [TreeView.Lacks, placed.view_policyAt h, view_nodeById, Except.ok.injEq,
    h'.handle_eq_none_iff]
  constructor
  case mp =>
    rintro ⟨_, ⟨ns, x, hns, hp, rfl⟩, lacks⟩
    exact ⟨ns, x, hns, hp, lacks⟩
  case mpr =>
    rintro ⟨ns, x, hns, hp, lacks⟩
    exact ⟨_, ⟨ns, x, hns, hp, rfl⟩, lacks⟩

namespace Replaced

variable (h : Replaced base next)

include h

theorem comes_iff : PolicyChange.Comes (base.view .initial) (next.view .initial) path ↔
    Marks base next path .added :=
  (exists_lacks_iff h.revised.tidy.inPlace h.after h.before).trans h.marks_added_iff.symm

theorem goes_iff : PolicyChange.Goes (base.view .initial) (next.view .initial) path ↔
    Marks base next path .removed :=
  (exists_lacks_iff h.tidy.inPlace h.before h.after).trans h.marks_removed_iff.symm

theorem rewrites_iff : PolicyChange.Rewrites (base.view .initial) (next.view .initial) path ↔
    Marks base next path .modified := by
  have entry {s : Store} {ns : List String} {x : NodeId} (wf : s.WellFormed)
      (hp : s.PolicyAt ns x) : (s.view .initial).HasEntry
        ⟨x, Path.ofNames (ns ++ [Policy.nodeName])⟩ ↔ s.HasEntry x :=
    have ⟨_, hn⟩ := wf.mem_of_stands hp.2
    wf.view_hasEntry hn
  simp only [h.marks_modified_iff, PolicyChange.Rewrites, TreeView.Lacks, view_nodeById,
    h.revised.tidy.inPlace.view_policyAt h.after, h.tidy.inPlace.view_policyAt h.before,
    Except.ok.injEq, h.before.handle_eq_none_iff]
  constructor
  case mp =>
    rintro ⟨_, ⟨⟨ns, x, rfl, hp, rfl⟩, fresh⟩, has⟩
    refine ⟨ns, x, rfl, hp, fresh, has.imp (entry h.after hp).1 ?_⟩
    rintro ⟨_, ⟨ms, old, same, hold, rfl⟩, had⟩
    have way {s : Store} {ns : List String} {x : NodeId} (wf : s.WellFormed)
        (hp : s.PolicyAt ns x) : ∀ n ∈ ns, Path.IsSegment n :=
      fun n hn => wf.isSegment_of_stands hp.2 n (List.mem_append_left _ hn)
    obtain rfl := Path.ofNames_injective (way h.before hold) (way h.after hp) same
    exact ⟨old, hold, (entry h.before hold).1 had⟩
  case mpr =>
    rintro ⟨ns, x, rfl, hp, fresh, has⟩
    refine ⟨_, ⟨⟨ns, x, rfl, hp, rfl⟩, fresh⟩, has.imp (entry h.after hp).2 ?_⟩
    rintro ⟨old, hold, had⟩
    exact ⟨_, ⟨ns, old, rfl, hold, rfl⟩, (entry h.before hold).2 had⟩

-- Where policies have come and gone as wholes, this is what those who ask are told, and no more.
theorem exact : PolicyChange.Exact (base.view .initial) (next.view .initial)
    (.ofEvents (next.view .initial)
      ((base.changes next .initial).filter PolicyChange.filter.accepts)) := by
  have flags {path : String} {i : Nat} (hi : i < 3) : _ ↔ Marks base next path (.single i) :=
    single_subset_flags_iff hi h.before h.after
  constructor
  case names =>
    intro path
    constructor
    case mpr =>
      rintro (hc | hg)
      · exact (h.comes_iff.1 hc).names
      · exact (h.goes_iff.1 hg).names
    case mp =>
      intro hm
      have ⟨m, hm⟩ := Names.exists_marks hm
      rcases (hm.marked h.before h.after).eq_single with rfl | rfl | rfl
      · exact .inl (h.comes_iff.2 hm)
      · exact .inl ((h.rewrites_iff.2 hm).imp fun _ => And.left)
      · exact .inr (h.goes_iff.2 hm)
  all_goals intro path
  case added    => exact (flags (by decide)).trans h.comes_iff.symm
  case removed  => exact (flags (by decide)).trans h.goes_iff.symm
  case modified => exact (flags (by decide)).trans h.rewrites_iff.symm

end Replaced

end Store

end PolicyTree
