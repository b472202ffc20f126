import Mathlib.Tactic.Common
import PolicyTree.PolicyChange
import PolicyTree.Proofs.Policy.Content

namespace PolicyTree.PolicyChange

theorem mem_record {c : PolicyChange} {owner path : String} {m : Modifications} :
    path ∈ c.record owner m ↔ path = owner ∨ path ∈ c := by
  by_cases h : path = owner
  case pos => simp [record, h]
  case neg => simp [record, Std.ExtTreeMap.mem_alter, h, Ne.symm h]

def recordEvent (tree : TreeView) (c : PolicyChange) (e : Event) : PolicyChange :=
  match ofEvent tree e with
  | .ok (some (owner, m)) => c.record owner m
  | .ok none | .error _ => c

-- What can be said of a change was so from the start, or an event has made it so.
theorem foldl_recordEvent {P : PolicyChange → Prop} {Q : String → Modifications → Prop}
    {tree : TreeView} {events : List Event} (c : PolicyChange)
    (h : ∀ c owner m, P (c.record owner m) ↔ P c ∨ Q owner m) :
    P (events.foldl (recordEvent tree) c) ↔
      P c ∨ ∃ e ∈ events, ∃ owner m, ofEvent tree e = .ok (some (owner, m)) ∧ Q owner m := by
  induction events generalizing c
  case nil => simp
  case cons e events hi =>
    rw [List.foldl_cons, hi, recordEvent]
    simp only [List.mem_cons, exists_eq_or_imp, ← or_assoc]
    refine or_congr_left ?_
    rcases hr : ofEvent tree e with _ | _ | ⟨owner, m⟩
    · simp
    · simp
    · simp [h]

theorem mem_ofEvents {tree : TreeView} {events : List Event} {path : String} :
    path ∈ ofEvents tree events ↔ ∃ e ∈ events, ∃ m, ofEvent tree e = .ok (some (path, m)) := by
  refine (foldl_recordEvent (P := (path ∈ ·)) (Q := fun owner _ => path = owner) ∅
    fun _ _ _ => mem_record.trans or_comm).trans ?_
  simp

def flags (change : PolicyChange) (path : String) : Modifications := change[path]?.getD ∅

theorem flags_record {c : PolicyChange} {owner path : String} {m : Modifications} :
    (c.record owner m).flags path = if path = owner then c.flags path ∪ m else c.flags path := by
  by_cases h : path = owner
  case pos => simp [flags, record, h]
  case neg => simp [flags, record, Std.ExtTreeMap.getElem?_alter, h, Ne.symm h]

theorem mem_flags_ofEvents {tree : TreeView} {events : List Event} {path : String} {i : Nat} :
    i ∈ (ofEvents tree events).flags path ↔
      ∃ e ∈ events, ∃ m, ofEvent tree e = .ok (some (path, m)) ∧ i ∈ m := by
  refine (foldl_recordEvent (P := (i ∈ ·.flags path)) (Q := fun owner m => path = owner ∧ i ∈ m) ∅
    fun _ _ _ => ?_).trans ?_
  · rw [flags_record]
    split <;> simp [*]
  · simp [flags]

-- Those who ask get every event below a node that has to do with policies.
theorem accepts_filter {e : Event} {ns : List String} {name type : String}
    (hv : ∀ n ∈ ns ++ [name], Path.IsSegment n) (hp : e.path = Path.ofNames (ns ++ [name]))
    (hm : type ∈ e.parentTypes) (ht : type ∈ [Policy.mixin, Policy.listType, Policy.entryType]) :
    filter.accepts e := by
  have kind : e.kind ∈ filter.kinds := by
    cases e.kind <;> decide
  have scope : filter.inScope (Path.ofNames ns) := by
    have : (Path.ofNames ns).toList.head? = some '/' := by
      cases ns
      case nil => decide
      case cons => simp [Path.toList_ofNames]
    simp [EventFilter.inScope, filter, Path.covers, this]
  have t : e.parentTypes.any filter.nodeTypes.contains :=
    List.any_eq_true.2 ⟨type, hm, by simpa [filter] using ht⟩
  simp [EventFilter.accepts, kind, hp, Path.parent_ofNames hv, scope, t]

-- What each kind of event is taken for.

variable {s : Store} {t : NodeTypes} {e : Event} {n : Node} {ns : List String}
  {p : NodeId} {name : String}

theorem ofAddition_eq (h : s.WellFormed) (hn : s.nodes[e.node]? = some n) :
    ofAddition (s.view t) e = .ok (
      if Policy.listType ∈ s.effectiveTypes t e.node then (Path.parent e.path).map (·, .added)
      else if Policy.entryType ∈ s.effectiveTypes t e.node then
        (Path.ancestor e.path 2).map (·, .modified)
      else none) := by
  have ⟨ns, hs⟩ := h.stands hn
  have isType (type : String) : (s.view t).isType ⟨e.node, Path.ofNames ns⟩ type = _ :=
    Store.view_isType hn
  by_cases hl : Policy.listType ∈ s.effectiveTypes t e.node <;>
    by_cases he : Policy.entryType ∈ s.effectiveTypes t e.node <;>
    simp [ofAddition, Store.view_nodeById, h.handle_eq hs, isType, hl, he, bind, Except.bind, pure,
      Except.pure]

theorem ofAddition_list (h : s.WellFormed) (hn : s.nodes[e.node]? = some n)
    (hl : Policy.listType ∈ s.effectiveTypes t e.node) :
    ofAddition (s.view t) e = .ok ((Path.parent e.path).map (·, .added)) := by
  simp [ofAddition_eq h hn, hl]

theorem ofAddition_entry (h : s.WellFormed) (hn : s.nodes[e.node]? = some n)
    (hl : Policy.listType ∉ s.effectiveTypes t e.node)
    (he : Policy.entryType ∈ s.effectiveTypes t e.node) :
    ofAddition (s.view t) e = .ok ((Path.ancestor e.path 2).map (·, .modified)) := by
  simp [ofAddition_eq h hn, hl, he]

theorem ofRemoval_policy {tree : TreeView} (hname : Path.name e.path = Policy.nodeName) :
    ofRemoval tree e = .ok ((Path.parent e.path).map (·, .removed)) := by
  simp [ofRemoval, hname, pure, Except.pure]

theorem ofRemoval_entry (h : s.WellFormed) (hs : s.Stands ns p) (hname : Path.IsSegment name)
    (hp : e.path = Path.ofNames (ns ++ [name])) (hne : name ≠ Policy.nodeName)
    (hl : Policy.listType ∈ s.effectiveTypes t p) :
    ofRemoval (s.view t) e = .ok ((Path.ancestor e.path 2).map (·, .modified)) := by
  have hns := h.isSegment_of_stands hs
  have hv : ∀ n ∈ ns ++ [name], Path.IsSegment n := by simpa [or_imp, forall_and] using ⟨hns, hname⟩
  have ⟨pn, hpn⟩ := h.mem_of_stands hs
  have ⟨found, hr, hf⟩ := h.view_resolve (t := t) hns
  obtain rfl := (hf ⟨p, Path.ofNames ns⟩).2 ⟨hs, rfl⟩
  have : Path.name e.path ≠ Policy.nodeName := by rwa [hp, Path.name_ofNames hname]
  rw [hp] at this
  simp [ofRemoval, this, hp, Path.parent_ofNames hv, hr,
    Store.view_isType (o := ⟨p, Path.ofNames ns⟩) hpn, hl, bind, Except.bind, pure, Except.pure]

-- The end of a node is taken for that of a policy by its name, or for that of an entry by where it
-- stood.
theorem of_ofRemoval {path : String} {m : Modifications} (h : s.WellFormed)
    (hv : ∀ n ∈ ns ++ [name], Path.IsSegment n) (hp : e.path = Path.ofNames (ns ++ [name]))
    (ho : ofRemoval (s.view t) e = .ok (some (path, m))) :
    name = Policy.nodeName ∧ Path.ofNames ns = path ∧ m = .removed ∨
    name ≠ Policy.nodeName ∧ Path.ancestor e.path 2 = some path ∧ m = .modified ∧
      ∃ q, s.Stands ns q ∧ Policy.listType ∈ s.effectiveTypes t q := by
  have hname : Path.name e.path = name := hp ▸ Path.name_ofNames (hv name (by simp))
  have hparent : Path.parent e.path = some (Path.ofNames ns) := hp ▸ Path.parent_ofNames hv
  have ⟨found, hr, hf⟩ := h.view_resolve (t := t) fun n hn => hv n (List.mem_append_left _ hn)
  rw [ofRemoval, hname, hparent] at ho
  split at ho
  case isTrue hn =>
    obtain ⟨rfl, rfl⟩ : Path.ofNames ns = path ∧ Modifications.removed = m := by simpa using ho
    exact .inl ⟨hn, rfl, rfl⟩
  case isFalse hn =>
    dsimp only at ho
    rw [hr] at ho
    cases found
    case none        => exact nomatch ho
    case some policy =>
      have ⟨hs, _⟩ := (hf policy).1 rfl
      have ⟨_, hq⟩ := h.mem_of_stands hs
      by_cases hl : Policy.listType ∈ s.effectiveTypes t policy.id
      case neg => simp [Store.view_isType hq, hl, bind, Except.bind, pure, Except.pure] at ho
      case pos =>
        obtain ⟨ha, rfl⟩ : Path.ancestor e.path 2 = some path ∧ Modifications.modified = m := by
          simpa [Store.view_isType hq, hl, bind, Except.bind, pure, Except.pure] using ho
        exact .inr ⟨hn, ha, rfl, policy.id, hs, hl⟩

theorem ofProperty_entry (he : Policy.entryType ∈ e.parentTypes) :
    ofProperty e = (Path.ancestor e.path 3).map (·, .modified) := by
  simp [ofProperty, he]

end PolicyTree.PolicyChange
